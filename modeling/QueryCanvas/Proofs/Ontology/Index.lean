/-
  QueryCanvas.Proofs.Ontology.Index

  What is read from the solutions of the ontology query: one fact for each
  solution that has all parts, in order, whatever the ontology held before.
-/

import QueryCanvas.Ontology

namespace QueryCanvas

/-- Repetitions are left out, so one more text counts if it is not there yet. -/
theorem eraseDups_concat (texts : List String) (text : String) :
    (texts ++ [text]).eraseDups =
      if text ∈ texts then texts.eraseDups else texts.eraseDups ++ [text] := by
  rw [List.eraseDups_append, List.removeAll]
  by_cases h : text ∈ texts <;> simp [h, List.eraseDups_cons]

/-- The IRIs that a fact relates. -/
def Fact.iris (f : Fact) : String × String × String :=
  (f.property.iri, f.domain.iri, f.range.iri)

@[simp] theorem Fact.iris_resolve (iris : String × String × String) (p : PrefixTable) :
    (Fact.resolve iris p).2.iris = iris := rfl

@[simp] theorem Term.iri_refresh (t : Term) (p : PrefixTable) : (t.refresh p).iri = t.iri := by
  unfold Term.refresh
  split <;> rfl

@[simp] theorem Fact.iris_refresh (f : Fact) (p : PrefixTable) : (f.refresh p).iris = f.iris := by
  simp [iris, refresh]

/-- The IRIs in a solution that has all parts. -/
def Fact.irisOf? (b : Binding) : Option (String × String × String) := (Fact.irisOf b).toOption

/-- The solution from which a fact is read that relates three IRIs. -/
def Fact.solution (property domain range : String) : Binding :=
  .ofPairs [("s", ⟨"uri", property, none, none⟩), ("domain", ⟨"uri", domain, none, none⟩),
    ("range", ⟨"uri", range, none, none⟩)]

namespace Ontology

/-! ## Facts and solutions -/

/-- A solution with all parts adds a fact with its IRIs, another one adds nothing. -/
theorem iris_step (l : Loading) (entry : Binding × Nat) :
    (l.step entry).ontology.facts.map Fact.iris =
      l.ontology.facts.map Fact.iris ++ (Fact.irisOf? entry.1).toList := by
  unfold Loading.step Fact.irisOf?
  cases Fact.irisOf entry.1 with
  | error role => simp [Except.toOption]
  | ok iris => simp [addFact, Except.toOption]

theorem iris_foldl_step (entries : List (Binding × Nat)) (l : Loading) :
    (entries.foldl Loading.step l).ontology.facts.map Fact.iris =
      l.ontology.facts.map Fact.iris ++ entries.filterMap (Fact.irisOf? ·.1) := by
  induction entries generalizing l with
  | nil => simp
  | cons entry rest ih =>
    rw [List.foldl_cons, ih, iris_step, List.append_assoc, List.filterMap_cons]
    cases Fact.irisOf? entry.1 <;> rfl

/-- The facts read from solutions: those of the solutions with all parts, in order. -/
theorem iris_index (o : Ontology) (bindings : List Binding) (p : PrefixTable) :
    (o.index bindings p).1.facts.map Fact.iris = bindings.filterMap Fact.irisOf? := by
  have hplaces :
      bindings.zipIdx.filterMap (Fact.irisOf? ·.1) = bindings.filterMap Fact.irisOf? := by
    have hmap := List.filterMap_map (f := Prod.fst) (g := Fact.irisOf?) (l := bindings.zipIdx)
    rw [List.zipIdx_map_fst] at hmap
    exact hmap.symm
  rw [index, iris_foldl_step, hplaces]
  rfl

/-- Taking up prefixes changes no IRI. -/
theorem iris_refresh (o : Ontology) (p : PrefixTable) :
    (o.refresh p).facts.map Fact.iris = o.facts.map Fact.iris := by
  simp [refresh]

/-! ## Nothing is left from before -/

/-- The same loading for an ontology of another generation. -/
def Loading.dated (generation : Nat) (l : Loading) : Loading :=
  { l with ontology := { l.ontology with generation := generation } }

/-- Reading a solution does not look at the generation. -/
theorem Loading.step_dated (generation : Nat) (l : Loading) (entry : Binding × Nat) :
    (l.dated generation).step entry = (l.step entry).dated generation := by
  unfold Loading.step
  cases Fact.irisOf entry.1 <;> rfl

/-- Apart from the generation, what is loaded does not depend on what was there before. -/
theorem index_eq (o : Ontology) (bindings : List Binding) (p : PrefixTable) :
    o.index bindings p =
      ({ (Ontology.new.index bindings p).1 with generation := o.generation },
        (Ontology.new.index bindings p).2) := by
  have hstart : (⟨o.reset, p, []⟩ : Loading) =
      Loading.dated o.generation ⟨Ontology.new.reset, p, []⟩ := rfl
  have hread : bindings.zipIdx.foldl Loading.step ⟨o.reset, p, []⟩ =
      (bindings.zipIdx.foldl Loading.step ⟨Ontology.new.reset, p, []⟩).dated o.generation := by
    rw [hstart]
    exact List.foldl_hom (Loading.dated o.generation) (Loading.step_dated o.generation)
  simp only [index, hread, Loading.dated]

end Ontology

end QueryCanvas
