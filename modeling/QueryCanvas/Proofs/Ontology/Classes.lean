/-
  QueryCanvas.Proofs.Ontology.Classes

  The class that the facts give to the objects of a property. It depends on the
  IRIs of the facts alone: neither the prefixes under which terms are shown nor
  what the ontology held before have a part in it.
-/

import Mathlib.Data.List.Induction
import QueryCanvas.Proofs.Ontology.Lookup
import QueryCanvas.Proofs.Ontology.Index
import QueryCanvas.Proofs.Ontology.Term
import QueryCanvas.Suggestion.Range

namespace QueryCanvas

/-! ## Terms without prefixes -/

/-- The term as it is shown while no prefix is known. -/
def Term.bare (t : Term) : Term := { t with short := t.expansion }

/-- The term of an IRI while no prefix is known. -/
def Term.ofIri (iri : String) : Term :=
  let parts := Iri.split iri
  ⟨iri, parts.1, parts.1, parts.2, Iri.labelOf parts.2⟩

/-- Apart from its prefix, a current term is determined by its IRI. -/
theorem Term.IsCurrent.bare_eq {t : Term} {p : PrefixTable} (h : t.IsCurrent p) :
    t.bare = Term.ofIri t.iri := by
  simp only [Term.bare, Term.ofIri, h.split_eq, h.label_eq]

def Fact.bare (f : Fact) : Fact := ⟨f.property.bare, f.domain.bare, f.range.bare⟩

def Fact.ofIris (iris : String × String × String) : Fact :=
  ⟨.ofIri iris.1, .ofIri iris.2.1, .ofIri iris.2.2⟩

/-- Apart from prefixes, current facts are determined by their IRIs. -/
theorem Ontology.bare_facts_eq {o : Ontology} {p : PrefixTable}
    (current : ∀ t ∈ o.terms, t.IsCurrent p) :
    o.facts.map Fact.bare = (o.facts.map Fact.iris).map Fact.ofIris := by
  rw [List.map_map]
  refine List.map_congr_left fun f hf => ?_
  have hterm : ∀ t ∈ f.terms, t.bare = Term.ofIri t.iri := fun t ht =>
    (current t (List.mem_flatMap.2 ⟨f, hf, ht⟩)).bare_eq
  simp only [Function.comp_apply, Fact.bare, Fact.ofIris, Fact.iris,
    hterm f.property (by simp [Fact.terms]), hterm f.domain (by simp [Fact.terms]),
    hterm f.range (by simp [Fact.terms])]

/-! ## Ranges -/

namespace RangeInference

/-- Which ranges are taken for repetitions does not depend on prefixes. -/
theorem addRange_bare (ranges : List Term) (range : Term) :
    (addRange ranges range).map Term.bare = addRange (ranges.map Term.bare) range.bare := by
  have hany : (ranges.map Term.bare).any (·.iri = range.bare.iri) =
      ranges.any (·.iri = range.iri) := List.any_map
  rw [addRange, addRange, hany]
  split <;> simp

theorem collect_bare (facts : List Fact) (ranges : List Term) :
    (facts.foldl (fun ranges f => addRange ranges f.range) ranges).map Term.bare =
      (facts.map Fact.bare).foldl (fun ranges f => addRange ranges f.range)
        (ranges.map Term.bare) := by
  induction facts generalizing ranges with
  | nil => rfl
  | cons f rest ih => rw [List.foldl_cons, ih, addRange_bare, List.map_cons, List.foldl_cons]; rfl

theorem iris_addRange (ranges : List Term) (range : Term) :
    (addRange ranges range).map Term.iri =
      if range.iri ∈ ranges.map Term.iri then ranges.map Term.iri
      else ranges.map Term.iri ++ [range.iri] := by
  have hany : ranges.any (·.iri = range.iri) = true ↔ range.iri ∈ ranges.map Term.iri := by
    simp
  rw [addRange]
  by_cases hmem : range.iri ∈ ranges.map Term.iri
  · rw [if_pos (hany.2 hmem), if_pos hmem]
  · rw [if_neg fun h => hmem (hany.1 h), if_neg hmem, List.map_append]
    rfl

/-- The ranges of facts. -/
def collect (facts : List Fact) : List Term :=
  facts.foldl (fun ranges f => addRange ranges f.range) []

/-- Ranges are told apart by their IRIs, and come in the order of their first facts. -/
theorem iris_collect (facts : List Fact) :
    (collect facts).map Term.iri = (facts.map (·.range.iri)).eraseDups := by
  induction facts using List.reverseRecOn with
  | nil => simp [collect]
  | append_singleton facts f ih =>
    have hstep : collect (facts ++ [f]) = addRange (collect facts) f.range := by
      rw [collect, List.foldl_append]
      rfl
    rw [hstep, iris_addRange, ih, List.map_append, List.map_singleton, eraseDups_concat]
    simp only [List.mem_eraseDups]

theorem collect_eq_nil_iff (facts : List Fact) : collect facts = [] ↔ facts = [] := by
  constructor
  · intro hnone
    have hiris := iris_collect facts
    rw [hnone, List.map_nil] at hiris
    refine List.eq_nil_iff_forall_not_mem.2 fun f hf => ?_
    have hmem : f.range.iri ∈ (facts.map (·.range.iri)).eraseDups :=
      List.mem_eraseDups.2 (List.mem_map_of_mem hf)
    rw [← hiris] at hmem
    cases hmem
  · rintro rfl
    rfl

theorem collect_subset (facts : List Fact) : collect facts ⊆ facts.map Fact.range := by
  induction facts using List.reverseRecOn with
  | nil => exact fun _ h => h
  | append_singleton facts f ih =>
    intro t ht
    rw [collect, List.foldl_append] at ht
    simp only [List.foldl_cons, List.foldl_nil, addRange] at ht
    rw [List.map_append, List.mem_append]
    split at ht
    · exact .inl (ih ht)
    · rcases List.mem_append.1 ht with ht | ht
      · exact .inl (ih ht)
      · exact .inr ht

/-- The class that ranges amount to, and whether it merges several. -/
def class? (r : RangeInference) : Option (String × Bool) :=
  r.classLabel?.map fun label => (label, r.isAmalgam)

theorem class?_bare (ranges : List Term) :
    (ofRanges (ranges.map Term.bare)).class? = (ofRanges ranges).class? := by
  match ranges with
  | [] => rfl
  | [range] => rfl
  | first :: second :: rest =>
    have hlabels : ((first :: second :: rest).map Term.bare).map Term.label =
        (first :: second :: rest).map Term.label := by
      rw [List.map_map]
      rfl
    exact congrArg (fun labels => some (Text.joinWith " | " labels, true)) hlabels

/-- The class is made of the labels, and merges ranges if there are several. -/
theorem class?_ofRanges {ranges : List Term} (some_range : ranges ≠ []) :
    (ofRanges ranges).class? =
      some (" | ".intercalate (ranges.map Term.label),
        decide (2 ≤ (ranges.map Term.label).length)) := by
  match ranges with
  | [] => exact absurd rfl some_range
  | [range] => rfl
  | first :: second :: rest =>
    have htwo : 2 ≤ ((first :: second :: rest).map Term.label).length := by simp
    rw [decide_eq_true htwo]
    rfl

end RangeInference

namespace Ontology

/-- The facts whose property has the local name of a content as label, in the order of loading. -/
def matching (o : Ontology) (content : String) : List Fact :=
  o.facts.filter (·.property.label = Sparql.localName content)

/-- The labels of the ranges of these facts, one for each IRI, in the order in which the IRIs come
    first. -/
def rangeLabels (o : Ontology) (content : String) : List String :=
  ((o.matching content).map (·.range.iri)).eraseDups.map fun iri =>
    Iri.labelOf (Iri.split iri).2

/-- The class that the facts give to what an edge shows, and whether it merges several ranges. -/
def classOf? (o : Ontology) (content : String) : Option (String × Bool) :=
  (RangeInference.infer content o).class?

/-- A content without matching facts has no class, any other the labels of their ranges. -/
theorem classOf?_eq {o : Ontology} (h : o.Indexed) (parted : ∀ t ∈ o.terms, t.IsParted)
    (content : String) :
    o.classOf? content =
      if o.matching content = [] then none
      else some (" | ".intercalate (o.rangeLabels content),
        decide (2 ≤ (o.rangeLabels content).length)) := by
  have hinfer : o.classOf? content =
      (RangeInference.ofRanges (RangeInference.collect (o.matching content))).class? := by
    rw [classOf?, RangeInference.infer, h.factsForProperty_eq]
    rfl
  have hlabels : (RangeInference.collect (o.matching content)).map Term.label =
      o.rangeLabels content := by
    rw [rangeLabels, ← RangeInference.iris_collect, List.map_map]
    refine List.map_congr_left fun t ht => ?_
    obtain ⟨f, hf, rfl⟩ := List.mem_map.1 (RangeInference.collect_subset _ ht)
    have hterm : f.range.IsParted :=
      parted _ (List.mem_flatMap.2 ⟨f, List.mem_of_mem_filter hf, by simp [Fact.terms]⟩)
    rw [hterm.label_eq, Function.comp_apply, hterm.split_eq]
  rw [hinfer]
  by_cases hnone : o.matching content = []
  · rw [if_pos hnone, hnone]
    rfl
  · rw [if_neg hnone, RangeInference.class?_ofRanges
      (mt (RangeInference.collect_eq_nil_iff _).1 hnone), hlabels]

/-- Ontologies whose facts differ in prefixes only give the same classes. -/
theorem classOf?_congr {o o' : Ontology} (h : o.Indexed) (h' : o'.Indexed)
    (same : o'.facts.map Fact.bare = o.facts.map Fact.bare) (content : String) :
    o'.classOf? content = o.classOf? content := by
  -- facts are found by their labels, which are those of the bare facts
  have hfound : ∀ {o : Ontology}, o.Indexed →
      (o.factsForProperty (Sparql.localName content)).map Fact.bare =
        (o.facts.map Fact.bare).filter (·.property.label = Sparql.localName content) := by
    intro o h
    rw [h.factsForProperty_eq, List.filter_map]
    rfl
  have hclass : ∀ {o : Ontology}, o.Indexed → o.classOf? content =
      (RangeInference.ofRanges (((o.facts.map Fact.bare).filter
        (·.property.label = Sparql.localName content)).foldl
          (fun ranges f => RangeInference.addRange ranges f.range) [])).class? := by
    intro o h
    rw [classOf?, RangeInference.infer, ← RangeInference.class?_bare, RangeInference.collect_bare,
      hfound h]
    rfl
  rw [hclass h, hclass h', same]

end Ontology

end QueryCanvas
