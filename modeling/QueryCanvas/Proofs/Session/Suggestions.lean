/-
  QueryCanvas.Proofs.Session.Suggestions

  The numbers of suggestions, over a whole session. A number stands for one
  suggestion, whatever prefixes it is shown with, and once it has left the list
  it stands for nothing.

  All suggestions of a list are found at once, for one element and under numbers
  that have never been used (`orderly_suggestFor`). From then on the list gets
  shorter, or is relabelled, or makes room for a new one. `Renews` is what a
  list and a later one have to do with each other, and is kept from call to call.
-/

import QueryCanvas.Proofs.Ontology.Classes
import QueryCanvas.Proofs.Session.Acceptance
import QueryCanvas.Proofs.Session.Loads

namespace QueryCanvas

/-! ## What suggestions are about -/

namespace Suggestion

/-- Two properties that may leave one node, or two classes that may stand at the end of one edge. -/
def SameTarget : Suggestion → Suggestion → Prop
  | edge x, edge y => x.subject = y.subject
  | node x, node y => x.edge = y.edge
  | _, _ => False

theorem sameTarget_iff {x y : Suggestion} : x.SameTarget y ↔ x.element = y.element := by
  cases x <;> cases y <;> simp [SameTarget, element]

/-- The suggestion as it would be without known prefixes. -/
def bare : Suggestion → Suggestion
  | edge x =>
    edge { x with property := x.property.bare, domain := x.domain.bare, range := x.range.bare }
  | node x => node { x with cls := x.cls.bare }

@[simp] theorem index_bare (x : Suggestion) : x.bare.index = x.index := by
  cases x <;> rfl

theorem index_eq_of_bare {x y : Suggestion} (h : y.bare = x.bare) : y.index = x.index := by
  rw [← index_bare y, h, index_bare]

@[simp] theorem index_refresh (x : Suggestion) (p : PrefixTable) :
    (x.refresh p).index = x.index := by
  cases x <;> rfl

@[simp] theorem bare_refresh (x : Suggestion) (p : PrefixTable) : (x.refresh p).bare = x.bare := by
  have hterm : ∀ t : Term, (t.refresh p).bare = t.bare := by
    intro t
    unfold Term.refresh
    split <;> rfl
  cases x <;> simp only [refresh, bare, hterm]

end Suggestion

/-! ## Lists of suggestions -/

/-- A list of suggestions under a counter: the numbers ascend, none is above the counter, and all
    are about one element. -/
structure Orderly (last : Nat) (l : List Suggestion) : Prop where
  ascending : l.Pairwise (·.index < ·.index)
  below : ∀ x ∈ l, x.index ≤ last
  alike : ∀ x ∈ l, ∀ y ∈ l, x.element = y.element

namespace Orderly

variable {last : Nat} {l : List Suggestion}

theorem nil (last : Nat) : Orderly last [] := ⟨.nil, by simp, by simp⟩

theorem sublist (h : Orderly last l) {l' : List Suggestion} (fewer : l'.Sublist l) :
    Orderly last l' where
  ascending := h.ascending.sublist fewer
  below x hx := h.below x (fewer.subset hx)
  alike x hx y hy := h.alike x (fewer.subset hx) y (fewer.subset hy)

theorem refresh (h : Orderly last l) (p : PrefixTable) : Orderly last (l.map (·.refresh p)) where
  ascending := by
    rw [List.pairwise_map]
    simpa using h.ascending
  below x hx := by
    obtain ⟨y, hy, rfl⟩ := List.mem_map.1 hx
    rw [Suggestion.index_refresh]
    exact h.below y hy
  alike x hx y hy := by
    obtain ⟨x', hx', rfl⟩ := List.mem_map.1 hx
    obtain ⟨y', hy', rfl⟩ := List.mem_map.1 hy
    rw [Suggestion.element_refresh, Suggestion.element_refresh]
    exact h.alike x' hx' y' hy'

/-- A number stands for one suggestion. -/
theorem eq_of_index (h : Orderly last l) {x y : Suggestion} (hx : x ∈ l) (hy : y ∈ l)
    (hindex : x.index = y.index) : x = y := by
  have hdistinct : (l.map Suggestion.index).Nodup := by
    rw [List.Nodup, List.pairwise_map]
    exact h.ascending.imp Nat.ne_of_lt
  exact List.inj_on_of_nodup_map hdistinct hx hy hindex

section

variable {front back : List Suggestion} {x : Suggestion}

/-- Other suggestions have smaller numbers, or larger ones. -/
theorem index_lt (h : Orderly last (front ++ x :: back)) :
    (∀ y ∈ front, y.index < x.index) ∧ ∀ y ∈ back, x.index < y.index := by
  obtain ⟨-, hback, hfront⟩ := List.pairwise_append.1 h.ascending
  exact ⟨fun y hy => hfront y hy x (by simp), (List.pairwise_cons.1 hback).1⟩

/-- Without the number of one suggestion, all others are left. -/
theorem filter_index (h : Orderly last (front ++ x :: back)) :
    (front ++ x :: back).filter (·.index ≠ x.index) = front ++ back := by
  obtain ⟨hsmaller, hlarger⟩ := h.index_lt
  have hleft : ∀ l' : List Suggestion, (∀ y ∈ l', y.index ≠ x.index) →
      l'.filter (·.index ≠ x.index) = l' := by
    intro l' hl'
    rw [List.filter_eq_self]
    simpa using hl'
  rw [List.filter_append, List.filter_cons_of_neg (by simp),
    hleft front fun y hy => Nat.ne_of_lt (hsmaller y hy),
    hleft back fun y hy => Nat.ne_of_gt (hlarger y hy)]

theorem find?_index (h : Orderly last (front ++ x :: back)) :
    (front ++ x :: back).find? (·.index = x.index) = some x := by
  have hfront : front.find? (·.index = x.index) = none := by
    rw [List.find?_eq_none]
    intro y hy
    simpa using Nat.ne_of_lt (h.index_lt.1 y hy)
  rw [List.find?_append, hfront, Option.none_or, List.find?_cons_of_pos (by simp)]

end

end Orderly

/-! ## Finding suggestions -/

/-- Suggestions that were numbered in a row, the counter before being `last`. -/
structure NumberedFrom (last : Nat) (found : Nat × List Suggestion) : Prop where
  le : last ≤ found.1
  ascending : found.2.Pairwise (·.index < ·.index)
  between : ∀ x ∈ found.2, last < x.index ∧ x.index ≤ found.1

theorem numberedFrom_numbered {β γ : Type} {make : Nat → β → γ} {wrap : γ → Suggestion}
    (numbers : ∀ index b, (wrap (make index b)).index = index) (l : List β) (last : Nat) :
    NumberedFrom last ((numbered last make l).1, (numbered last make l).2.map wrap) := by
  rw [numbered_eq, List.map_map]
  refine ⟨Nat.le_add_right last l.length, ?_, fun x hx => ?_⟩
  · have hnumbers : ((l.zipIdx (last + 1)).map Prod.snd).Pairwise (· < ·) := by
      rw [List.zipIdx_map_snd]
      exact List.pairwise_lt_range'
    rw [List.pairwise_map] at hnumbers ⊢
    simpa only [Function.comp_apply, numbers] using hnumbers
  · obtain ⟨entry, hmem, rfl⟩ := List.mem_map.1 hx
    have hle := List.le_snd_of_mem_zipIdx hmem
    have hlt := List.snd_lt_add_of_mem_zipIdx hmem
    rw [Function.comp_apply, numbers]
    omega

namespace Ontology

/-- Whatever is selected, the suggestions have numbers that have not been used. -/
theorem numberedFrom_suggestFor (o : Ontology) (selection : Selection) (last : Nat) :
    NumberedFrom last (o.suggestFor selection last) := by
  have hnone : NumberedFrom last (last, []) := ⟨Nat.le_refl last, .nil, by simp⟩
  unfold suggestFor
  split
  · next node kind _ _ =>
    show NumberedFrom last ((o.suggestForNode node kind selection.content last).1,
      (o.suggestForNode node kind selection.content last).2.map .edge)
    unfold suggestForNode
    split
    · exact hnone
    · exact numberedFrom_numbered (fun _ _ => rfl) _ last
  · exact numberedFrom_numbered (fun _ _ => rfl) _ last
  · exact hnone

theorem orderly_suggestFor (o : Ontology) (selection : Selection) (last : Nat) :
    Orderly (o.suggestFor selection last).1 (o.suggestFor selection last).2 := by
  have hnumbered := o.numberedFrom_suggestFor selection last
  refine ⟨hnumbered.ascending, fun x hx => (hnumbered.between x hx).2, fun x hx y hy => ?_⟩
  rw [Session.element_suggestFor hx, Session.element_suggestFor hy]

end Ontology

namespace Session

/-! ## From call to call -/

/-- The lists of suggestions of a session and of what it has become. -/
structure Renews (s s' : Session) : Prop where
  orderly : Orderly s.lastIndex s.suggestions → Orderly s'.lastIndex s'.suggestions
  lastIndex_le : s.lastIndex ≤ s'.lastIndex
  /-- A suggestion was there before, apart from its prefixes, or has a new number. -/
  known : ∀ y ∈ s'.suggestions,
    (∃ x ∈ s.suggestions, y.bare = x.bare) ∨ s.lastIndex < y.index

namespace Renews

variable {s s' : Session}

/-- Suggestions may be dropped. -/
theorem of_sublist (lastIndex : s'.lastIndex = s.lastIndex)
    (fewer : s'.suggestions.Sublist s.suggestions) : Renews s s' where
  orderly h := by
    rw [lastIndex]
    exact h.sublist fewer
  lastIndex_le := Nat.le_of_eq lastIndex.symm
  known y hy := .inl ⟨y, fewer.subset hy, rfl⟩

theorem refl (s : Session) : Renews s s := of_sublist rfl (List.Sublist.refl _)

theorem trans {a b c : Session} (hab : Renews a b) (hbc : Renews b c) : Renews a c where
  orderly h := hbc.orderly (hab.orderly h)
  lastIndex_le := Nat.le_trans hab.lastIndex_le hbc.lastIndex_le
  known z hz := by
    rcases hbc.known z hz with ⟨y, hy, hzy⟩ | hnew
    · rcases hab.known y hy with ⟨x, hx, hyx⟩ | hnew
      · exact .inl ⟨x, hx, hzy.trans hyx⟩
      · right
        rw [Suggestion.index_eq_of_bare hzy]
        exact hnew
    · right
      have hle := hab.lastIndex_le
      omega

theorem suggestFor (s : Session) (selection : Selection) : Renews s (s.suggestFor selection) where
  orderly _ := s.ontology.orderly_suggestFor selection s.lastIndex
  lastIndex_le := (s.ontology.numberedFrom_suggestFor selection s.lastIndex).le
  known y hy := .inr ((s.ontology.numberedFrom_suggestFor selection s.lastIndex).between y hy).1

theorem finishPrefixes (s : Session) (answers : PrefixAnswers) :
    Renews s (s.finishPrefixes answers).1 where
  orderly h := h.refresh _
  lastIndex_le := Nat.le_refl _
  known y hy := by
    obtain ⟨x, hx, rfl⟩ := List.mem_map.1 hy
    exact .inl ⟨x, hx, x.bare_refresh _⟩

theorem of_proceeds (h : Proceeds s s') : Renews s s' := by
  induction h with
  | drop _ _ lastIndex suggestions => exact of_sublist lastIndex suggestions
  | suggestFor s selection => exact suggestFor s selection
  | trans _ _ before after => exact before.trans after

/-- Every call. -/
theorem call (s : Session) (c : Call) : Renews s (s.call c).1 := by
  cases c with
  | edit change => exact of_proceeds (.edit s fun c => (change c, ()))
  | beginLoad => exact of_sublist rfl (List.Sublist.refl _)
  | finishLoad ticket fetched =>
    show Renews s (s.finishLoad ticket fetched).1
    rcases s.finishLoad_cases ticket fetched with h | ⟨bindings, h⟩
    · rw [h]
      exact refl s
    · rw [h]
      have hloaded : Renews s (s.loaded bindings) := of_sublist rfl (List.Sublist.refl _)
      exact hloaded.trans (of_proceeds ((Proceeds.sync _).trans (.refreshSuggestions _)))
  | beginPrefixes => exact of_sublist rfl (List.Sublist.refl _)
  | finishPrefixes answers => exact finishPrefixes s answers
  | refreshSuggestions => exact of_proceeds (.refreshSuggestions s)
  | removeSuggestion index => exact of_proceeds (.removeSuggestion s index)
  | acceptSuggestion index => exact of_proceeds (.acceptSuggestion s index)
  | clear => exact of_proceeds (.clear s)

/-- Every run. -/
theorem run (s : Session) (calls : List Call) : Renews s (s.run calls).1 :=
  runLogged_induct (P := fun (s' : Session) (_ : List Note) => Renews s s') (refl s)
    fun s' _ c _ h => h.trans (call s' c)

end Renews

/-! ## Removal -/

variable {s : Session}

/-- A suggestion that is removed leaves the others as they are. -/
theorem removeSuggestion_eq {last : Nat} {front back : List Suggestion} {x : Suggestion}
    (h : Orderly last s.suggestions) (listed : s.suggestions = front ++ x :: back) :
    s.removeSuggestion x.index = ({ s with suggestions := front ++ back }, .ok x) := by
  rw [listed] at h
  have hfound : s.suggestion? x.index = some x := by
    rw [suggestion?, listed]
    exact h.find?_index
  simp only [removeSuggestion, hfound]
  rw [listed, h.filter_index]

theorem removeSuggestion_of_unlisted {index : Nat}
    (unlisted : ∀ x ∈ s.suggestions, x.index ≠ index) :
    s.removeSuggestion index = (s, .error (.suggestionNotFound index)) := by
  have hnone : s.suggestion? index = none := by
    rw [suggestion?, List.find?_eq_none]
    simpa using unlisted
  simp only [removeSuggestion, hnone]

/-! ## Every session -/

theorem orderly_run (base : String) (sizes : ShapeSizes Float) (calls : List Call) :
    Orderly ((new base sizes).run calls).1.lastIndex ((new base sizes).run calls).1.suggestions :=
  (Renews.run (new base sizes) calls).orderly (.nil 0)

/-- Whatever is done in a session, and in whatever order: the numbers in the list of suggestions
    ascend, and all suggestions are of one sort and about one element. A number that is still listed
    later on stands for the same suggestion, apart from prefixes that have become known. A number
    that is not listed any more is never listed again. To remove a suggestion takes this one out of
    the list and leaves everything else as it is; to remove one that is not listed is refused. -/
theorem suggestions_keep_identity (base : String) (sizes : ShapeSizes Float)
    (before during after : List Call) :
    let s := ((new base sizes).run before).1
    let t := (s.run during).1
    let u := (t.run after).1
    s.suggestions.Pairwise (·.index < ·.index) ∧
      (∀ x ∈ s.suggestions, ∀ y ∈ s.suggestions, x.SameTarget y) ∧
      (∀ x ∈ s.suggestions, ∀ y ∈ t.suggestions, y.index = x.index → y.bare = x.bare) ∧
      (∀ x ∈ s.suggestions, (∀ y ∈ t.suggestions, y.index ≠ x.index) →
        ∀ z ∈ u.suggestions, z.index ≠ x.index) ∧
      (∀ front x back, s.suggestions = front ++ x :: back →
        s.removeSuggestion x.index = ({ s with suggestions := front ++ back }, .ok x)) ∧
      ∀ index, (∀ x ∈ s.suggestions, x.index ≠ index) →
        s.removeSuggestion index = (s, .error (.suggestionNotFound index)) := by
  intro s t u
  have hs : Orderly s.lastIndex s.suggestions := orderly_run base sizes before
  have hst : Renews s t := .run s during
  have htu : Renews t u := .run t after
  refine ⟨hs.ascending, fun x hx y hy => Suggestion.sameTarget_iff.2 (hs.alike x hx y hy), ?_, ?_,
    fun front x back => removeSuggestion_eq hs, fun index => removeSuggestion_of_unlisted⟩
  · intro x hx y hy hindex
    rcases hst.known y hy with ⟨x', hx', hbare⟩ | hnew
    · have hsame : x'.index = x.index := (Suggestion.index_eq_of_bare hbare).symm.trans hindex
      rw [hbare, hs.eq_of_index hx' hx hsame]
    -- a new number is larger than those in the list before
    · have hbelow := hs.below x hx
      omega
  · intro x hx hgone z hz hindex
    rcases htu.known z hz with ⟨y, hy, hbare⟩ | hnew
    · exact hgone y hy ((Suggestion.index_eq_of_bare hbare).symm.trans hindex)
    · have hbelow := hs.below x hx
      have hle := hst.lastIndex_le
      omega

/-- A class is on the canvas and selected, and two properties are suggested for it. -/
def twoSuggested : List Call :=
  [.beginLoad, .finishLoad ⟨1⟩ (.ok ⟨[], [
    Fact.solution "http://base/knows" "http://base/Person" "http://base/Person",
    Fact.solution "http://base/wrote" "http://base/Person" "http://base/Book"]⟩),
    .edit fun c => (c.createNode ⟨0, 0⟩ .uri ":Person").1]

/-- One suggestion is removed, and the same two properties are found again. -/
theorem suggestions_keep_identity_found_again :
    let s := ((new "http://base/" defaultSizes).run twoSuggested).1
    let t := (s.run [.removeSuggestion 1]).1
    let u := (t.run [.refreshSuggestions]).1
    s.suggestions.map Suggestion.index = [1, 2] ∧ t.suggestions.map Suggestion.index = [2] ∧
      u.suggestions.map Suggestion.index = [3, 4] ∧ ∀ z ∈ u.suggestions, z.index ≠ 1 := by
  intro s t u
  obtain ⟨-, -, -, hgone, -, -⟩ := suggestions_keep_identity "http://base/" defaultSizes
    twoSuggested [.removeSuggestion 1] [.refreshSuggestions]
  have hs : s.suggestions.map Suggestion.index = [1, 2] := rfl
  have ht : t.suggestions.map Suggestion.index = [2] := rfl
  refine ⟨hs, ht, rfl, ?_⟩
  obtain ⟨x, hx, hindex⟩ : ∃ x ∈ s.suggestions, x.index = 1 := by
    rw [← List.mem_map, hs]
    simp
  have habsent : ∀ y ∈ t.suggestions, y.index ≠ x.index := by
    intro y hy
    have hmem : y.index ∈ t.suggestions.map Suggestion.index := List.mem_map_of_mem hy
    rw [ht, List.mem_singleton] at hmem
    omega
  rw [← hindex]
  exact hgone x hx habsent

end Session

end QueryCanvas
