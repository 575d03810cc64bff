/-
  QueryCanvas.Proofs.Ontology.Term

  Terms that are current: their parts are those of their IRI, and they show the
  prefix that the table knows now, or the expansion while it knows none.

  Reading solutions of the ontology query makes current terms. It may ask for
  prefixes but learns none, so it leaves older terms current too.
-/

import QueryCanvas.Proofs.Prefix.Table

namespace QueryCanvas

namespace Term

/-- True if the name of the term has a prefix. -/
def isPrefixed (t : Term) : Bool := t.hasPrefix && t.expansion ≠ ""

theorem qualifiedName_of_prefixed {t : Term} (h : t.isPrefixed) :
    t.qualifiedName = t.short ++ ":" ++ t.localName := if_pos h

theorem qualifiedName_of_full {t : Term} (h : t.isPrefixed = false) : t.qualifiedName = t.iri :=
  if_neg (ne_true_of_eq_false h)

/-- The parts and the label of a term are those of its IRI. -/
structure IsParted (t : Term) : Prop where
  split_eq : Iri.split t.iri = (t.expansion, t.localName)
  label_eq : t.label = Iri.labelOf t.localName

/-- The parts and the label of a term are those of its IRI, and its prefix is the one that is
    known. -/
structure IsCurrent (t : Term) (prefixes : PrefixTable) : Prop where
  split_eq : Iri.split t.iri = (t.expansion, t.localName)
  label_eq : t.label = Iri.labelOf t.localName
  short_eq : t.short = (prefixes.peek? t.expansion).getD t.expansion

variable {t : Term} {p p' : PrefixTable}

theorem IsCurrent.isParted (h : t.IsCurrent p) : t.IsParted := ⟨h.split_eq, h.label_eq⟩

theorem IsParted.refresh (h : t.IsParted) (p : PrefixTable) : (t.refresh p).IsParted := by
  unfold Term.refresh
  split
  · exact ⟨h.split_eq, h.label_eq⟩
  · exact h

/-- Nothing is lost when an IRI is split. -/
theorem IsParted.iri_eq (h : t.IsParted) : t.iri = t.expansion ++ t.localName := by
  have hparts := Text.cutAfterLast_append Iri.isSeparator t.iri.toList
  have hsplit := h.split_eq
  rw [Iri.split, Prod.mk.injEq] at hsplit
  rw [← hsplit.1, ← hsplit.2, ← String.ofList_append, hparts, String.ofList_toList]

theorem IsCurrent.iri_eq (h : t.IsCurrent p) : t.iri = t.expansion ++ t.localName :=
  h.isParted.iri_eq

theorem IsCurrent.of_peek? (h : t.IsCurrent p)
    (same : ∀ expansion, p'.peek? expansion = p.peek? expansion) : t.IsCurrent p' :=
  ⟨h.split_eq, h.label_eq, by rw [same]; exact h.short_eq⟩

/-- Refreshing makes terms current again after prefixes have become known. -/
theorem IsCurrent.refresh (h : t.IsCurrent p)
    (learned : ∀ expansion short, p.peek? expansion = some short →
      p'.peek? expansion = some short) : (t.refresh p').IsCurrent p' := by
  unfold Term.refresh
  cases hnow : p'.peek? t.expansion with
  | some short => exact ⟨h.split_eq, h.label_eq, by simp [hnow]⟩
  | none =>
    have hbefore : p.peek? t.expansion = none := by
      cases hp : p.peek? t.expansion with
      | none => rfl
      | some short =>
        rw [learned _ _ hp] at hnow
        cases hnow
    exact ⟨h.split_eq, h.label_eq, by rw [hnow, h.short_eq, hbefore]⟩

/-- A current term has nothing to take up. -/
theorem IsCurrent.refresh_eq (h : t.IsCurrent p) : t.refresh p = t := by
  have hshort := h.short_eq
  unfold Term.refresh
  split
  · next short hknown =>
    rw [hknown, Option.getD_some] at hshort
    rw [← hshort]
  · rfl

/-- What was taken up before makes no difference to what is taken up later. -/
theorem refresh_refresh (learned : ∀ expansion short, p.peek? expansion = some short →
    p'.peek? expansion = some short) (t : Term) : (t.refresh p).refresh p' = t.refresh p' := by
  unfold Term.refresh
  cases hbefore : p.peek? t.expansion with
  | none => rfl
  | some short =>
    have hlater : p'.peek? t.expansion = some short := learned _ _ hbefore
    simp only [hlater]

end Term

/-! ## Reading terms -/

/-- The table after another: nothing broken, and nothing learned or forgotten. -/
structure PrefixTable.Asked (p p' : PrefixTable) : Prop where
  sound : p.Sound → p'.Sound
  unasked : p.EmptyUnasked → p'.EmptyUnasked
  peek?_eq : ∀ expansion, p'.peek? expansion = p.peek? expansion
  expansionOf?_eq : ∀ short, p'.expansionOf? short = p.expansionOf? short

namespace PrefixTable.Asked

theorem refl (p : PrefixTable) : p.Asked p := ⟨id, id, fun _ => rfl, fun _ => rfl⟩

theorem trans {a b c : PrefixTable} (hab : a.Asked b) (hbc : b.Asked c) : a.Asked c :=
  ⟨fun h => hbc.sound (hab.sound h), fun h => hbc.unasked (hab.unasked h),
    fun expansion => (hbc.peek?_eq expansion).trans (hab.peek?_eq expansion),
    fun short => (hbc.expansionOf?_eq short).trans (hab.expansionOf?_eq short)⟩

theorem resolve (p : PrefixTable) {expansion : String} (h : expansion ≠ "") :
    p.Asked (p.resolve expansion).1 where
  sound hp := hp.resolve h
  unasked hp := hp.resolve h
  peek?_eq := p.peek?_resolve expansion
  expansionOf?_eq := p.expansionOf?_resolve expansion

end PrefixTable.Asked

theorem Term.resolve_asked (iri : String) (p : PrefixTable) :
    p.Asked (Term.resolve iri p).1 := by
  unfold Term.resolve
  dsimp only
  split
  · exact .refl p
  · next h => exact .resolve p h

/-- A term that was looked up is current. -/
theorem Term.resolve_isCurrent (iri : String) {p : PrefixTable} (h : p.EmptyUnasked) :
    (Term.resolve iri p).2.IsCurrent (Term.resolve iri p).1 := by
  refine Term.IsCurrent.of_peek? (p := p) ⟨rfl, rfl, ?_⟩ (Term.resolve_asked iri p).peek?_eq
  simp only [Term.resolve]
  split
  · next hempty =>
    -- an IRI without separators has no namespace, and none is known for it
    rw [hempty, PrefixTable.peek?]
    split
    · rfl
    · rw [h]
      rfl
  · exact p.resolve_eq_peek? _

theorem Fact.resolve_asked (iris : String × String × String) (p : PrefixTable) :
    p.Asked (Fact.resolve iris p).1 :=
  ((Term.resolve_asked iris.1 p).trans (Term.resolve_asked iris.2.1 _)).trans
    (Term.resolve_asked iris.2.2 _)

theorem Fact.resolve_isCurrent (iris : String × String × String) {p : PrefixTable}
    (h : p.EmptyUnasked) :
    ∀ t ∈ (Fact.resolve iris p).2.terms, t.IsCurrent (Fact.resolve iris p).1 := by
  obtain ⟨property, domain, range⟩ := iris
  have hproperty := Term.resolve_asked property p
  have hdomain := Term.resolve_asked domain (Term.resolve property p).1
  have hrange := Term.resolve_asked range (Term.resolve domain (Term.resolve property p).1).1
  -- each term was current when it was looked up, and the look-ups after it learned nothing
  intro t ht
  simp only [Fact.resolve, Fact.terms, List.mem_cons, List.not_mem_nil, or_false] at ht ⊢
  rcases ht with rfl | rfl | rfl
  · exact (Term.resolve_isCurrent property h).of_peek? (hdomain.trans hrange).peek?_eq
  · exact (Term.resolve_isCurrent domain (hproperty.unasked h)).of_peek? hrange.peek?_eq
  · exact Term.resolve_isCurrent range ((hproperty.trans hdomain).unasked h)

/-! ## Loading -/

namespace Ontology

/-- The terms of all facts. -/
def terms (o : Ontology) : List Term := o.facts.flatMap Fact.terms

theorem Loading.step_asked (l : Loading) (entry : Binding × Nat) :
    l.prefixes.Asked (l.step entry).prefixes := by
  unfold Loading.step
  split
  · exact .refl _
  · next iris _ => exact Fact.resolve_asked iris l.prefixes

/-- Loading asks for prefixes only. -/
theorem index_asked (o : Ontology) (bindings : List Binding) (p : PrefixTable) :
    p.Asked (o.index bindings p).2.1 := by
  refine List.foldlRecOn (motive := fun l : Loading => p.Asked l.prefixes)
    bindings.zipIdx Loading.step (.refl p) ?_
  intro l hl entry _
  exact hl.trans (l.step_asked entry)

/-- Everything read so far is current. -/
structure Loading.Sound (l : Loading) : Prop where
  unasked : l.prefixes.EmptyUnasked
  current : ∀ t ∈ l.ontology.terms, t.IsCurrent l.prefixes

theorem Loading.Sound.step {l : Loading} (h : l.Sound) (entry : Binding × Nat) :
    (l.step entry).Sound := by
  refine ⟨(l.step_asked entry).unasked h.unasked, ?_⟩
  unfold Loading.step
  split
  · exact h.current
  · next iris _ =>
    intro t ht
    simp only [terms, addFact, List.flatMap_append, List.mem_append, List.flatMap_cons,
      List.flatMap_nil, List.append_nil] at ht
    rcases ht with ht | ht
    -- terms of earlier facts, then those of the new one
    · exact (h.current t ht).of_peek? (Fact.resolve_asked iris l.prefixes).peek?_eq
    · exact Fact.resolve_isCurrent iris h.unasked t ht

/-- Every term that loading makes is current. -/
theorem index_isCurrent (o : Ontology) (bindings : List Binding) {p : PrefixTable}
    (h : p.EmptyUnasked) :
    ∀ t ∈ (o.index bindings p).1.terms, t.IsCurrent (o.index bindings p).2.1 := by
  have hstart : Loading.Sound ⟨o.reset, p, []⟩ := ⟨h, fun t ht => by simp [terms, reset] at ht⟩
  have hdone : (bindings.zipIdx.foldl Loading.step ⟨o.reset, p, []⟩).Sound :=
    List.foldlRecOn (motive := Loading.Sound) bindings.zipIdx _ hstart
      fun l hl entry _ => hl.step entry
  exact hdone.current

/-- Every term that loading makes has the parts of its IRI. -/
theorem index_isParted (o : Ontology) (bindings : List Binding) (p : PrefixTable) :
    ∀ t ∈ (o.index bindings p).1.terms, t.IsParted := by
  refine List.foldlRecOn (motive := fun l : Loading => ∀ t ∈ l.ontology.terms, t.IsParted)
    bindings.zipIdx Loading.step (fun t ht => by simp [terms, reset] at ht) ?_
  intro l hl entry _
  unfold Loading.step
  split
  · exact hl
  · next iris _ =>
    intro t ht
    simp only [terms, addFact, List.flatMap_append, List.mem_append, List.flatMap_cons,
      List.flatMap_nil, List.append_nil] at ht
    rcases ht with ht | ht
    · exact hl t ht
    · simp only [Fact.resolve, Fact.terms, List.mem_cons, List.not_mem_nil, or_false] at ht
      rcases ht with rfl | rfl | rfl
      · exact ⟨rfl, rfl⟩
      · exact ⟨rfl, rfl⟩
      · exact ⟨rfl, rfl⟩

theorem mem_terms_refresh {o : Ontology} {p : PrefixTable} {t : Term}
    (h : t ∈ (o.refresh p).terms) : ∃ t' ∈ o.terms, t = t'.refresh p := by
  simp only [terms, refresh, List.mem_flatMap, List.mem_map, exists_exists_and_eq_and, Fact.terms,
    Fact.refresh, List.mem_cons, List.not_mem_nil, or_false] at h ⊢
  obtain ⟨f, hf, rfl | rfl | rfl⟩ := h
  · exact ⟨f.property, ⟨f, hf, .inl rfl⟩, rfl⟩
  · exact ⟨f.domain, ⟨f, hf, .inr (.inl rfl)⟩, rfl⟩
  · exact ⟨f.range, ⟨f, hf, .inr (.inr rfl)⟩, rfl⟩

end Ontology

end QueryCanvas
