/-
  QueryCanvas.Proofs.Session.Ranges

  What range inference does after a change of the canvas, in terms of the
  changed diagram alone.

  The edges that are due are found beforehand, and several of them may end at
  one node, which changes between the two kinds of anonymous nodes while they
  are gone through. All the same each edge does what it would do alone, and
  leaves nothing of what the edges before it did; so the last edge with a known
  class decides (`Session.classify`), and neither the order of the nodes nor
  anything else shows that there were others.
-/

import QueryCanvas.Proofs.Session.Reload

namespace QueryCanvas

theorem NodeKind.isInferable_iff (kind : NodeKind) :
    kind.isInferable = true ↔ kind = .unboundVariable ∨ kind = .amalgam := by
  cases kind <;> decide

namespace Session

variable {s : Session}

/-- The class on which the edges that are due for a node decide, as the facts have it. -/
theorem verdict?_eq (indexed : s.ontology.Indexed) (parted : ∀ t ∈ s.ontology.terms, t.IsParted)
    {n : Node Float} (found : s.canvas.node? n.id = some n) :
    s.ontology.verdict? s.targets n.id =
      (s.canvas.diagram.edges.filter fun e =>
        s.DueFor e n ∧ s.ontology.matching e.content ≠ []).getLast?.map fun e =>
          (" | ".intercalate (s.ontology.rangeLabels e.content),
            decide (2 ≤ (s.ontology.rangeLabels e.content).length)) := by
  rw [verdict?_targets found, ← List.getLast?_map]
  congr 1
  rw [← List.filterMap_eq_map, List.filterMap_filter]
  refine List.filterMap_congr fun e _ => ?_
  rw [Ontology.classOf?_eq indexed parted]
  by_cases hdue : s.DueFor e n
  · by_cases hnone : s.ontology.matching e.content = []
    · simp [hdue, hnone]
    · simp [hdue, hnone]
  · simp [hdue]

/-- Only anonymous nodes have edges that are due. -/
theorem withClass_verdict? (current : s.canvas.Current) (wf : s.canvas.WellFormed) {n : Node Float}
    (hn : n ∈ s.canvas.diagram.nodes) :
    n.decided (s.ontology.verdict? s.targets n.id) s.canvas.sizes =
      n.withClass (s.ontology.verdict? s.targets n.id) := by
  by_cases hinferable : n.kind.isInferable = true
  · exact Node.decided_eq_withClass hinferable (current.outlines n hn) _
  · have hnone : s.ontology.verdict? s.targets n.id = none := by
      rw [verdict?_targets (Diagram.node?_of_mem wf.nodes_nodup hn)]
      simp [DueFor, hinferable]
    rw [hnone]
    rfl

section Reached

variable {allowed : Operation Float → Prop} {answered : String → Prop} {base : String}
  {sizes : ShapeSizes Float}

/-- After a change that is made of operations, classes are inferred along the edges of the changed
    diagram that are complete, show a property, show something else than when their ranges were last
    inferred, and end at a variable without a name or at an amalgam. A node at which such an edge
    ends whose property has facts gets the labels of their ranges from the last of these edges, one
    label for each IRI and in the order of loading; it is an amalgam if there are several ranges and
    a variable otherwise. The other nodes and all edges stay as the change left them. -/
theorem Reachable.edit_infers_ranges (reached : Reachable allowed answered base sizes s) {β : Type}
    (change : Canvas Float → Canvas Float × β) {operations : List (Operation Float)}
    (performs : (change s.canvas).1 = s.canvas.run operations) :
    let edited := (change s.canvas).1.diagram
    let inferred := (s.edit change).1.canvas.diagram
    let target (e : Edge Float) (n : Node Float) : Prop :=
      e.complete = true ∧ e.kind = .boundProperty ∧ s.inferred.get? e.id ≠ some e.content ∧
        e.object.node? = some n.id ∧ (n.kind = .unboundVariable ∨ n.kind = .amalgam)
    inferred.edges = edited.edges ∧
      inferred.nodes = edited.nodes.map fun n =>
        match (edited.edges.filter fun e =>
            target e n ∧ s.ontology.matching e.content ≠ []).getLast? with
        | some e =>
          let labels := s.ontology.rangeLabels e.content
          { n with
            inferredClass := some (" | ".intercalate labels)
            kind := if 2 ≤ labels.length then .amalgam else .unboundVariable }
        | none => n := by
  intro edited inferred target
  let changed : Session := { s with canvas := (change s.canvas).1 }
  have hcanvas : Canvas.Reachable (fun _ => True) sizes changed.canvas := by
    show Canvas.Reachable _ _ (change s.canvas).1
    rw [performs]
    exact reached.someCanvas.run fun _ _ => trivial
  have hindexed : changed.ontology.Indexed := reached.indexed
  have hparted : ∀ t ∈ changed.ontology.terms, t.IsParted := fun t ht =>
    (reached.showsKnown.terms t (List.mem_append_left _ ht)).isParted
  have hdiagram : inferred = changed.classify changed.targets := sync_diagram changed
  -- being due is what the statement spells out
  have hdue : ∀ e n, changed.DueFor e n ↔ target e n := by
    intro e n
    rw [DueFor, NodeKind.isInferable_iff]
  refine ⟨by rw [hdiagram]; rfl, ?_⟩
  rw [hdiagram]
  refine List.map_congr_left fun n hn => ?_
  have hfound : changed.canvas.node? n.id = some n :=
    Diagram.node?_of_mem hcanvas.wellFormed.nodes_nodup hn
  -- of all edges that end at the node, the last one with known ranges decides
  have hverdict : changed.ontology.verdict? changed.targets n.id =
      (edited.edges.filter fun e =>
        target e n ∧ s.ontology.matching e.content ≠ []).getLast?.map fun e =>
          (" | ".intercalate (s.ontology.rangeLabels e.content),
            decide (2 ≤ (s.ontology.rangeLabels e.content).length)) := by
    rw [verdict?_eq hindexed hparted hfound]
    simp only [hdue]
    rfl
  rw [withClass_verdict? hcanvas.current hcanvas.wellFormed hn, hverdict]
  cases (edited.edges.filter fun e =>
      target e n ∧ s.ontology.matching e.content ≠ []).getLast? with
  | none => rfl
  | some e => simp only [Option.map_some, Node.withClass, decide_eq_true_eq]

end Reached

/-- A session that knows three properties, one of them with two ranges of which one was loaded
    twice. -/
def informed : Session :=
  ((Session.new "http://base/" defaultSizes).reload ⟨[],
    [Fact.solution "http://base/wrote" "http://base/Person" "http://base/Short_Story",
      Fact.solution "http://base/knows" "http://base/Person" "http://base/Person",
      Fact.solution "http://base/wrote" "http://base/Person" "http://one/Book",
      Fact.solution "http://base/wrote" "http://base/Author" "http://base/Short_Story"]⟩).1

/-- Two variables between which several edges end. What the last edge to the first of them shows is
    not known to the ontology. -/
def drawRanges (c : Canvas Float) : Canvas Float × Unit :=
  (c.run [.createNode ⟨0, 0⟩ .uri ":Person", .createNode ⟨300, 0⟩ .unboundVariable "?",
    .createNode ⟨0, 300⟩ .unboundVariable "?", .connect ⟨1⟩ ⟨2⟩ ":knows",
    .connect ⟨1⟩ ⟨2⟩ ":wrote", .connect ⟨1⟩ ⟨2⟩ ":met", .connect ⟨1⟩ ⟨3⟩ ":wrote",
    .connect ⟨1⟩ ⟨3⟩ ":knows"], ())

theorem edit_infers_ranges_drawn :
    (informed.edit drawRanges).1.canvas.diagram.edges =
        (drawRanges informed.canvas).1.diagram.edges ∧
      (informed.edit drawRanges).1.canvas.diagram.nodes.map
          (fun n => (n.kind, n.inferredClass)) =
        [(.uri, none), (.amalgam, some "Short Story | Book"),
          (.unboundVariable, some "Person")] := by
  have hreached : Reachable (fun _ => True) (fun _ => True) "http://base/" defaultSizes informed :=
    Reachable.new.reload _
  obtain ⟨hedges, hnodes⟩ := Reachable.edit_infers_ranges hreached drawRanges rfl
  refine ⟨hedges, ?_⟩
  rw [hnodes]
  rfl

end Session

end QueryCanvas
