/-
  QueryCanvas.Proofs.Ontology.Lookup

  Facts are looked up by label through indexes, which hold positions. An index
  that has for every label the places where it stands finds what a scan of all
  facts finds, in the order of loading (`factsAt_eq_filter`).

  Both indexes are of this kind at all times: facts are only added one by one,
  each with its position, and taking up prefixes changes no label.
-/

import Mathlib.Data.List.Basic
import QueryCanvas.Ontology

namespace QueryCanvas

@[simp] theorem Term.label_refresh (t : Term) (p : PrefixTable) :
    (t.refresh p).label = t.label := by
  unfold Term.refresh
  split <;> rfl

namespace Ontology

/-! ## Places -/

/-- Where a label stands in a list of labels. -/
def places (labels : List String) (label : String) : List Nat :=
  (labels.zipIdx.filter (·.1 = label)).map Prod.snd

theorem places_concat (labels : List String) (x label : String) :
    places (labels ++ [x]) label =
      places labels label ++ if x = label then [labels.length] else [] := by
  rw [places, List.zipIdx_append, List.filter_append, List.map_append, places]
  by_cases hx : x = label <;> simp [hx]

/-- The index has the places of every label. -/
def Lists (index : Dict String (List Nat)) (labels : List String) : Prop :=
  ∀ label, (index.get? label).getD [] = places labels label

theorem Lists.empty : Lists .empty [] := fun _ => rfl

/-- Entering the label of the next fact. -/
theorem Lists.addPosition {index : Dict String (List Nat)} {labels : List String}
    (h : Lists index labels) (x : String) :
    Lists (Ontology.addPosition index x labels.length) (labels ++ [x]) := by
  intro label
  rw [places_concat, Ontology.addPosition, Dict.get?_insert]
  by_cases hx : x = label
  · subst hx
    simp [h x]
  · simp [hx, h label]

/-- What is found through an index is what a scan finds. -/
theorem factsAt_eq_filter {o : Ontology} {index : Dict String (List Nat)} {key : Fact → String}
    (h : Lists index (o.facts.map key)) (label : String) :
    o.factsAt index label = o.facts.filter (key · = label) := by
  -- a position goes with the fact that stands there
  have hplace : ∀ entry ∈ o.facts.zipIdx.filter (key ·.1 = label),
      o.facts[entry.2]? = some entry.1 := by
    intro entry hentry
    exact List.mem_zipIdx_iff_getElem?.1 (List.mem_of_mem_filter hentry)
  calc o.factsAt index label
      = ((o.facts.zipIdx.filter (key ·.1 = label)).map Prod.snd).filterMap
          fun position => o.facts[position]? := by
        rw [factsAt, h label, places, List.zipIdx_map, List.filter_map, List.map_map]
        rfl
    _ = (o.facts.zipIdx.filter (key ·.1 = label)).map Prod.fst := by
        rw [List.filterMap_map, ← List.filterMap_eq_map]
        exact List.filterMap_congr hplace
    _ = o.facts.filter (key · = label) := by
        have hscan := List.filter_map (f := Prod.fst) (p := (key · = label)) (l := o.facts.zipIdx)
        rw [List.zipIdx_map_fst] at hscan
        exact hscan.symm

/-! ## The invariant -/

/-- Both indexes have the places of all labels. -/
structure Indexed (o : Ontology) : Prop where
  byDomain : Lists o.byDomain (o.facts.map (·.domain.label))
  byProperty : Lists o.byProperty (o.facts.map (·.property.label))

namespace Indexed

variable {o : Ontology}

theorem factsForDomain_eq (h : o.Indexed) (label : String) :
    o.factsForDomain label = o.facts.filter (·.domain.label = label) :=
  factsAt_eq_filter h.byDomain label

theorem factsForProperty_eq (h : o.Indexed) (label : String) :
    o.factsForProperty label = o.facts.filter (·.property.label = label) :=
  factsAt_eq_filter h.byProperty label

theorem reset (o : Ontology) : o.reset.Indexed := ⟨.empty, .empty⟩

theorem addFact (h : o.Indexed) (f : Fact) : (o.addFact f).Indexed where
  byDomain := by simpa [Ontology.addFact] using h.byDomain.addPosition f.domain.label
  byProperty := by simpa [Ontology.addFact] using h.byProperty.addPosition f.property.label

/-- Every ontology that was loaded is indexed, whatever it held before. -/
theorem index (o : Ontology) (bindings : List Binding) (p : PrefixTable) :
    (o.index bindings p).1.Indexed := by
  have hread : (bindings.zipIdx.foldl Loading.step ⟨o.reset, p, []⟩).ontology.Indexed := by
    refine List.foldlRecOn (motive := fun l : Loading => l.ontology.Indexed)
      bindings.zipIdx Loading.step (reset o) ?_
    intro l hl entry _
    unfold Loading.step
    split
    · exact hl
    · exact hl.addFact _
  exact ⟨hread.byDomain, hread.byProperty⟩

theorem refresh (h : o.Indexed) (p : PrefixTable) : (o.refresh p).Indexed where
  byDomain := by simpa [Ontology.refresh, Fact.refresh, Function.comp_def] using h.byDomain
  byProperty := by simpa [Ontology.refresh, Fact.refresh, Function.comp_def] using h.byProperty

end Indexed

end Ontology

end QueryCanvas
