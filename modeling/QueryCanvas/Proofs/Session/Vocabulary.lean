/-
  QueryCanvas.Proofs.Session.Vocabulary

  The terms that a session shows, in facts and in suggestions, are current at
  every moment: they have the prefix that the table knows then, whatever the
  prefix service has answered or failed to answer.

  Only two calls touch terms or prefixes. Finishing a load replaces the facts;
  finishing a batch of prefixes refreshes facts and suggestions. Everything
  else keeps both (`KeepsTerms`), since new suggestions are taken from facts.
-/

import QueryCanvas.Proofs.Ontology.Index
import QueryCanvas.Proofs.Ontology.Term
import QueryCanvas.Proofs.Session.Proceeding
import QueryCanvas.Settings.Basic

namespace QueryCanvas

/-! ## Suggestions are made of facts -/

namespace Ontology

theorem mem_facts_of_factsAt {o : Ontology} {index : Dict String (List Nat)} {label : String}
    {f : Fact} (h : f ∈ o.factsAt index label) : f ∈ o.facts := by
  obtain ⟨position, -, hposition⟩ := List.mem_filterMap.1 h
  exact List.mem_of_getElem? hposition

theorem mem_terms_of_fact {o : Ontology} {f : Fact} (hf : f ∈ o.facts) {t : Term}
    (ht : t ∈ f.terms) : t ∈ o.terms :=
  List.mem_flatMap.2 ⟨f, hf, ht⟩

theorem mem_numbered {β γ : Type} {make : Nat → β → γ} {l : List β} {last : Nat} {x : γ}
    (h : x ∈ (numbered last make l).2) : ∃ index b, b ∈ l ∧ x = make index b := by
  rw [numbered_eq] at h
  obtain ⟨entry, hmem, rfl⟩ := List.mem_map.1 h
  exact ⟨entry.2, entry.1, List.fst_mem_of_mem_zipIdx hmem, rfl⟩

/-- The terms in a suggestion are terms of facts. -/
theorem terms_suggestFor {o : Ontology} {selection : Selection} {last : Nat} {x : Suggestion}
    (h : x ∈ (o.suggestFor selection last).2) {t : Term} (ht : t ∈ x.terms) : t ∈ o.terms := by
  unfold suggestFor at h
  split at h
  · obtain ⟨suggestion, hmem, rfl⟩ := List.mem_map.1 h
    unfold suggestForNode at hmem
    split at hmem
    · simp at hmem
    · obtain ⟨index, f, hf, rfl⟩ := mem_numbered hmem
      exact mem_terms_of_fact (mem_facts_of_factsAt hf) ht
  · obtain ⟨suggestion, hmem, rfl⟩ := List.mem_map.1 h
    obtain ⟨index, f, hf, rfl⟩ := mem_numbered hmem
    refine mem_terms_of_fact (mem_facts_of_factsAt hf) ?_
    rw [Suggestion.terms, List.mem_singleton] at ht
    simp [Fact.terms, ht]
  · simp at h

end Ontology

theorem Suggestion.mem_terms_refresh {x : Suggestion} {p : PrefixTable} {t : Term}
    (h : t ∈ (x.refresh p).terms) : ∃ t' ∈ x.terms, t = t'.refresh p := by
  cases x with
  | edge suggestion => simpa [Suggestion.refresh, Suggestion.terms] using h
  | node suggestion => simpa [Suggestion.refresh, Suggestion.terms] using h

namespace Session

/-- The terms in facts and suggestions. -/
def terms (s : Session) : List Term := s.ontology.terms ++ s.suggestions.flatMap Suggestion.terms

/-! ## Calls that keep the terms -/

/-- Facts and prefixes stay as they are, and so do suggestions unless they are made anew from
    facts. -/
structure KeepsTerms (s s' : Session) : Prop where
  ontology : s'.ontology = s.ontology
  prefixes : s'.prefixes = s.prefixes
  suggestions : ∀ x ∈ s'.suggestions, x ∈ s.suggestions ∨ ∀ t ∈ x.terms, t ∈ s.ontology.terms

namespace KeepsTerms

/-- A change of the canvas, of what was inferred or of the gate, maybe with fewer suggestions. -/
theorem of_subset {s s' : Session} (ontology : s'.ontology = s.ontology)
    (prefixes : s'.prefixes = s.prefixes) (suggestions : s'.suggestions ⊆ s.suggestions) :
    KeepsTerms s s' := ⟨ontology, prefixes, fun _ hx => .inl (suggestions hx)⟩

theorem trans {a b c : Session} (hab : KeepsTerms a b) (hbc : KeepsTerms b c) :
    KeepsTerms a c where
  ontology := hbc.ontology.trans hab.ontology
  prefixes := hbc.prefixes.trans hab.prefixes
  suggestions x hx := by
    rcases hbc.suggestions x hx with hx | hx
    · exact hab.suggestions x hx
    · exact .inr (hab.ontology ▸ hx)

theorem mem_terms {s s' : Session} (h : KeepsTerms s s') {t : Term} (ht : t ∈ s'.terms) :
    t ∈ s.terms := by
  rcases List.mem_append.1 ht with ht | ht
  · exact List.mem_append_left _ (h.ontology ▸ ht)
  · obtain ⟨x, hx, ht⟩ := List.mem_flatMap.1 ht
    rcases h.suggestions x hx with hx | hx
    · exact List.mem_append_right _ (List.mem_flatMap.2 ⟨x, hx, ht⟩)
    · exact List.mem_append_left _ (hx t ht)

/-- New suggestions are made of facts, and all else stays or goes. -/
theorem of_proceeds {s s' : Session} (h : Proceeds s s') : KeepsTerms s s' := by
  induction h with
  | drop ontology prefixes _ suggestions => exact of_subset ontology prefixes suggestions.subset
  | suggestFor s selection =>
    exact ⟨rfl, rfl, fun _ hx => .inr fun _ ht => Ontology.terms_suggestFor hx ht⟩
  | trans _ _ before after => exact before.trans after

end KeepsTerms

/-! ## The invariant -/

/-- What holds of the new session, and is kept by whatever keeps the terms and by the four calls
    that load facts or look after prefixes, holds of every session. -/
theorem Reachable.vocabulary_induct {allowed : Operation Float → Prop} {answered : String → Prop}
    {base : String} {sizes : ShapeSizes Float} {P : Session → Prop} (new : P (.new base sizes))
    (keep : ∀ {s s' : Session}, KeepsTerms s s' → P s → P s')
    (beginLoad : ∀ {s : Session}, P s → P s.beginLoad.1)
    (load : ∀ {s : Session} (bindings : List Binding), P s → P (s.loaded bindings))
    (beginPrefixes : ∀ {s : Session}, P s → P s.beginPrefixes.1)
    (finishPrefixes : ∀ {s : Session} {answers : PrefixAnswers}, Answered answered answers →
      P s → P (s.finishPrefixes answers).1)
    {s : Session} (reached : Reachable allowed answered base sizes s) : P s := by
  induction reached with
  | new => exact new
  | edit _ change _ _ ih => exact keep (.of_proceeds (.edit _ change)) ih
  | beginLoad _ ih => exact beginLoad ih
  | @finishLoad s _ ticket fetched ih =>
    rcases s.finishLoad_cases ticket fetched with h | ⟨bindings, h⟩
    · exact h.symm ▸ ih
    -- between the new facts and the new suggestions only the canvas and old suggestions change
    · rw [h]
      have hproceeds := (Proceeds.sync (s.loaded bindings)).trans (.refreshSuggestions _)
      exact keep (.of_proceeds hproceeds) (load bindings ih)
  | beginPrefixes _ ih => exact beginPrefixes ih
  | finishPrefixes _ possible ih => exact finishPrefixes possible ih
  | refreshSuggestions _ ih => exact keep (.of_proceeds (.refreshSuggestions _)) ih
  | @removeSuggestion s _ index ih => exact keep (.of_proceeds (.removeSuggestion s index)) ih
  | @acceptSuggestion s _ index ih => exact keep (.of_proceeds (.acceptSuggestion s index)) ih
  | @clear s _ ih => exact keep (.of_proceeds (.clear s)) ih

/-- Every term is current. That the empty namespace was not asked for is what the next load needs
    to make current terms. -/
structure ShowsKnown (s : Session) : Prop where
  unasked : s.prefixes.EmptyUnasked
  terms : ∀ t ∈ s.terms, t.IsCurrent s.prefixes

namespace ShowsKnown

variable {s s' : Session}

theorem keep (keeps : KeepsTerms s s') (h : s.ShowsKnown) : s'.ShowsKnown where
  unasked := keeps.prefixes ▸ h.unasked
  terms t ht := keeps.prefixes ▸ h.terms t (keeps.mem_terms ht)

/-- New facts may take the place of the old ones. Loading learns no prefix, so suggestions made
    of older facts stay current. -/
theorem load (bindings : List Binding) (h : s.ShowsKnown) : (s.loaded bindings).ShowsKnown := by
  have hasked := s.ontology.index_asked bindings s.prefixes
  refine ⟨hasked.unasked h.unasked, fun t ht => ?_⟩
  rcases List.mem_append.1 ht with ht | ht
  · exact s.ontology.index_isCurrent bindings h.unasked t ht
  · exact (h.terms t (List.mem_append_right _ ht)).of_peek? hasked.peek?_eq

/-- Answers take no prefix back, and whatever they make known is shown at once. -/
theorem finishPrefixes (answers : PrefixAnswers) (h : s.ShowsKnown) :
    (s.finishPrefixes answers).1.ShowsKnown where
  unasked := emptyUnasked_recordAnswers h.unasked answers
  terms t ht := by
    have hlearned : ∀ expansion short, s.prefixes.peek? expansion = some short →
        (recordAnswers s.prefixes answers).1.peek? expansion = some short :=
      fun _ _ => peek?_recordAnswers s.prefixes answers
    rcases List.mem_append.1 ht with ht | ht
    -- facts and suggestions are refreshed in the same way
    · obtain ⟨t', ht', rfl⟩ := Ontology.mem_terms_refresh ht
      exact (h.terms t' (List.mem_append_left _ ht')).refresh hlearned
    · obtain ⟨x, hx, ht⟩ := List.mem_flatMap.1 ht
      obtain ⟨x', hx', rfl⟩ := List.mem_map.1 hx
      obtain ⟨t', ht', rfl⟩ := Suggestion.mem_terms_refresh ht
      have hmem : t' ∈ s.terms := List.mem_append_right _ (List.mem_flatMap.2 ⟨x', hx', ht'⟩)
      exact (h.terms t' hmem).refresh hlearned

end ShowsKnown

section Reached

variable {allowed : Operation Float → Prop} {answered : String → Prop} {base : String}
  {sizes : ShapeSizes Float} {s : Session}

theorem Reachable.showsKnown (reached : Reachable allowed answered base sizes s) :
    s.ShowsKnown := by
  refine reached.vocabulary_induct ⟨rfl, fun t ht => absurd ht List.not_mem_nil⟩
    ShowsKnown.keep ?beginLoad ShowsKnown.load ?beginPrefixes fun _ => .finishPrefixes _
  case beginLoad => exact fun h => ⟨h.unasked, h.terms⟩
  case beginPrefixes =>
    intro s h
    refine ⟨h.unasked, fun t ht => ?_⟩
    exact (h.terms t ht).of_peek? fun expansion => PrefixTable.peek?_takeRequests _ expansion

/-- Namespaces and owners agree in every session, if the prefix service gives no other than
    shortened answers. -/
theorem Reachable.prefixes_sound (reached : Reachable allowed IsShortened base sizes s) :
    s.prefixes.Sound := by
  refine reached.vocabulary_induct (P := fun s => s.prefixes.Sound) (.new base)
    (fun keeps h => keeps.prefixes ▸ h) id ?load PrefixTable.Sound.takeRequests ?finishPrefixes
  case load => exact fun bindings h => (Ontology.index_asked _ bindings _).sound h
  case finishPrefixes => exact fun possible h => sound_recordAnswers h possible

/-- The prefixes agree in both directions, and every term is current. -/
structure Current (s : Session) : Prop where
  prefixes : s.prefixes.Sound
  terms : ∀ t ∈ s.terms, t.IsCurrent s.prefixes

theorem Reachable.current (reached : Reachable allowed IsShortened base sizes s) : s.Current :=
  ⟨reached.prefixes_sound, reached.showsKnown.terms⟩

/-! ## Known prefixes are shown -/

/-- Whatever was loaded, edited, answered or failed, and in whatever order: a term in a fact or in
    a suggestion is shown with the prefix that is known for its namespace, and with the namespace
    itself while none is known. Its parts make up its IRI, and its label is that of its local
    name. -/
theorem Reachable.shows_known_prefixes (reached : Reachable allowed answered base sizes s)
    {t : Term} (ht : t ∈ s.terms) :
    (∀ short, s.prefixes.peek? t.expansion = some short → t.short = short) ∧
      (s.prefixes.peek? t.expansion = none → t.short = t.expansion) ∧
      t.expansion ++ t.localName = t.iri ∧ t.label = Iri.labelOf t.localName := by
  have hterm : t.IsCurrent s.prefixes := reached.showsKnown.terms t ht
  have hshort := hterm.short_eq
  refine ⟨fun short hknown => ?_, fun hunknown => ?_, hterm.iri_eq.symm, hterm.label_eq⟩
  · rwa [hknown] at hshort
  · rwa [hunknown] at hshort

end Reached

/-- A session with two overlapping loads. A class is on the canvas and selected. The answer to the
    newer load comes first, and its facts are suggested; prefixes are asked for; the answer to the
    older load is dropped; then the service knows a prefix for one of the two namespaces. -/
def raced : Session :=
  let drawn := ((Session.new "http://base/" defaultSizes).edit fun c =>
    (c.run [.createNode ⟨0, 0⟩ .uri ":Person", .select (.node ⟨1⟩)], ())).1
  let older := drawn.beginLoad
  let newer := older.1.beginLoad
  let loaded := (newer.1.finishLoad newer.2
    (.ok ⟨[], [Fact.solution "http://one/visits" "http://two/Person" "http://two/a_place"]⟩)).1
  let asked := loaded.beginPrefixes
  let late := (asked.1.finishLoad older.2
    (.ok ⟨[], [Fact.solution "http://old/visits" "http://old/Person" "http://old/Place"]⟩)).1
  (late.finishPrefixes (asked.2.map fun request =>
    (request, if request.expansion = "http://one/" then .ok "one:a" else
      .error (.rejected request.term)))).1

theorem reachable_raced :
    Reachable (fun _ => True) (fun _ => True) "http://base/" defaultSizes raced := by
  refine .finishPrefixes (.finishLoad (.beginPrefixes (.finishLoad (.beginLoad (.beginLoad ?drawn))
    _ _)) _ _) fun _ _ _ _ => trivial
  exact .edit .new _ (fun _ _ => trivial) rfl

/-- The suggested property, whose prefix has become known. -/
def suggestedProperty : Term := ⟨"http://one/visits", "http://one/", "one", "visits", "visits"⟩

/-- The suggested class, whose prefix the service does not know. -/
def suggestedRange : Term :=
  ⟨"http://two/a_place", "http://two/", "http://two/", "a_place", "a place"⟩

theorem shows_known_prefixes_raced :
    raced.prefixes.peek? "http://one/" = some "one" ∧ suggestedProperty.short = "one" ∧
      raced.prefixes.peek? "http://two/" = none ∧ suggestedRange.short = "http://two/" ∧
      "http://two/" ++ "a_place" = suggestedRange.iri ∧
      suggestedRange.label = Iri.labelOf "a_place" := by
  have hproperty : raced.terms[3]? = some suggestedProperty := rfl
  have hrange : raced.terms[5]? = some suggestedRange := rfl
  obtain ⟨hknown, -, -, -⟩ :=
    Reachable.shows_known_prefixes reachable_raced (List.mem_of_getElem? hproperty)
  obtain ⟨-, hunknown, hiri, hlabel⟩ :=
    Reachable.shows_known_prefixes reachable_raced (List.mem_of_getElem? hrange)
  exact ⟨rfl, hknown "one" rfl, rfl, hunknown rfl, hiri, hlabel⟩

end Session

end QueryCanvas
