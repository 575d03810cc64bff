/-
  QueryCanvas.Proofs.Canvas.Appearance

  What a diagram means and how it looks. Two diagrams mean the same if, in
  order, their nodes have the same identities, kinds and contents, and their
  edges the same frames, kinds, contents and marks.

  A query depends on the meaning alone, and operations that arrange, track or
  annotate a canvas keep it: moved nodes take the ends of their edges along,
  and what the pointer drags is an end that was free before.
-/

import Mathlib.Logic.Function.Basic
import QueryCanvas.Proofs.Canvas.Output
import QueryCanvas.Proofs.Sparql.Congruence

namespace QueryCanvas

variable {α : Type}

/-! ## Meaning -/

/-- What a node means: who it is, and what it stands for. -/
def Node.meaning (n : Node α) : NodeId × NodeKind × String := (n.id, n.kind, n.content)

/-- What an edge means: what it joins, what it stands for, and whether it is optional. -/
def Edge.meaning (e : Edge α) : EdgeFrame × EdgeKind × String × Bool :=
  (e.frame, e.kind, e.content, e.isOptional)

/-- Two diagrams mean the same: element by element, in the same order. -/
structure SameMeaning (d d' : Diagram α) : Prop where
  nodes : d'.nodes.map Node.meaning = d.nodes.map Node.meaning
  edges : d'.edges.map Edge.meaning = d.edges.map Edge.meaning

namespace SameMeaning

variable {d d' : Diagram α}

theorem refl (d : Diagram α) : SameMeaning d d := ⟨rfl, rfl⟩

theorem trans {a b c : Diagram α} (hab : SameMeaning a b) (hbc : SameMeaning b c) :
    SameMeaning a c :=
  ⟨hbc.nodes.trans hab.nodes, hbc.edges.trans hab.edges⟩

/-- Changing how nodes look keeps the meaning. -/
theorem mapNodes (d : Diagram α) {f : Node α → Node α} (keeps : ∀ n, (f n).meaning = n.meaning) :
    SameMeaning d { d with nodes := d.nodes.map f } :=
  ⟨by rw [List.map_map]; exact List.map_congr_left fun n _ => keeps n, rfl⟩

theorem modifyNode (d : Diagram α) (id : NodeId) {f : Node α → Node α}
    (keeps : ∀ n, (f n).meaning = n.meaning) : SameMeaning d (d.modifyNode id f) :=
  ⟨d.map_modifyNode id keeps, rfl⟩

theorem modifyEdge (d : Diagram α) (id : EdgeId) {f : Edge α → Edge α}
    (keeps : ∀ e ∈ d.edges, e.id = id → (f e).meaning = e.meaning) :
    SameMeaning d (d.modifyEdge id f) :=
  ⟨rfl, d.map_modifyEdge id keeps⟩

end SameMeaning

/-- Moving the ends of an edge along their nodes keeps what it means. -/
theorem Diagram.meaning_reanchoredEdge [Scalar α] (d : Diagram α) (id : NodeId) (e : Edge α) :
    (d.reanchoredEdge id e).meaning = e.meaning := by
  have hrest : (d.reanchoredEdge id e).kind = e.kind ∧
      (d.reanchoredEdge id e).content = e.content ∧
      (d.reanchoredEdge id e).isOptional = e.isOptional := by
    unfold reanchoredEdge
    split
    · split
      · dsimp only
        split <;> exact ⟨rfl, rfl, rfl⟩
      · exact ⟨rfl, rfl, rfl⟩
    · split
      · split <;> exact ⟨rfl, rfl, rfl⟩
      · exact ⟨rfl, rfl, rfl⟩
  obtain ⟨hkind, hcontent, hmark⟩ := hrest
  rw [Edge.meaning, Edge.meaning, d.frame_reanchoredEdge, hkind, hcontent, hmark]

theorem SameMeaning.reanchor [Scalar α] (d : Diagram α) (id : NodeId) :
    SameMeaning d (d.reanchor id) := by
  refine ⟨rfl, ?_⟩
  rw [Diagram.reanchor, List.map_map]
  exact List.map_congr_left fun e _ => d.meaning_reanchoredEdge id e

/-! ## What a query depends on -/

namespace Sparql

/-- What depends on `f` alone is the same along lists that are the same under `f`. -/
theorem map_eq_of_factorsThrough {β γ δ : Type} [Nonempty δ] {f : β → γ} {g : β → δ}
    (factors : g.FactorsThrough f) {l l' : List β} (h : l'.map f = l.map f) :
    l'.map g = l.map g := by
  obtain ⟨view, rfl⟩ := (Function.factorsThrough_iff g).1 factors
  rw [← List.map_map, ← List.map_map, h]

theorem nodeView_factors (p : PrefixTable) :
    (nodeView (α := α) p).FactorsThrough Node.meaning := by
  intro n n' h
  obtain ⟨hid, hkind, hcontent⟩ := by simpa [Node.meaning] using h
  simp [nodeView, nodeFragment, Node.isSelected, hid, hkind, hcontent]

theorem edgeView_factors (p : PrefixTable) :
    (edgeView (α := α) p).FactorsThrough Edge.meaning := by
  intro e e' h
  obtain ⟨hframe, hkind, hcontent, hmark⟩ := by simpa [Edge.meaning] using h
  have hid : e.id = e'.id := (Edge.frame_eq_iff.1 hframe).1
  simp [edgeView, edgeFragment, Edge.isSelected, hframe, hid, hkind, hcontent, hmark]

end Sparql

/-- Diagrams that mean the same compile to the same text, or to the same error. -/
theorem SameMeaning.compile_eq {d d' : Diagram α} (same : SameMeaning d d') (p : PrefixTable) :
    d'.compile p = d.compile p :=
  have : Nonempty (NodeId × Sparql.Fragment) := ⟨⟨0⟩, ⟨"", false⟩⟩
  have : Nonempty (EdgeFrame × Sparql.Fragment × Bool) :=
    ⟨⟨⟨0⟩, none, none, false⟩, ⟨"", false⟩, false⟩
  Diagram.compile_congr (Sparql.map_eq_of_factorsThrough (Sparql.nodeView_factors p) same.nodes)
    (Sparql.map_eq_of_factorsThrough (Sparql.edgeView_factors p) same.edges)

/-! ## Operations on the appearance -/

/-- The operations that arrange, track or annotate what is shown. -/
def Operation.IsLayout : Operation α → Prop
  | .moveNode .. | .followPointer _ | .setClass .. | .select _ | .clearSelection | .setMode _ =>
    True
  | _ => False

namespace Canvas

variable [Scalar α] {c c' : Canvas α} {operation : Operation α}

/-- An operation on the appearance keeps what the diagram means. -/
theorem WellFormed.sameMeaning_step (h : c.WellFormed) (hstep : Step c operation c')
    (layout : operation.IsLayout) : SameMeaning c.diagram c'.diagram := by
  cases hstep with
  | quiet => exact .refl _
  | setClass => exact .modifyNode _ _ fun _ => rfl
  | moveNode position =>
    refine .trans (.modifyNode _ _ ?_) (.reanchor _ _)
    exact fun _ => rfl
  | followPointer pointer feed drawn =>
    obtain ⟨hmem, hincomplete⟩ := Diagram.mem_of_incompleteEdge? drawn
    refine .modifyEdge _ _ fun x hx hid => ?_
    obtain rfl := h.edge_unique hx hmem hid
    rw [Edge.meaning, h.frame_dragged hx hincomplete pointer, Edge.meaning]
  | select | clearSelection | setMode => exact .refl _
  | createNode | updateNode | assignNode | inferClass | deleteNode | startEdge | completeEdge
  | connect | updateEdge | setOptional | deleteEdge | clear | click => exact layout.elim

theorem WellFormed.sameMeaning_run (h : c.WellFormed) {operations : List (Operation α)}
    (layout : ∀ operation ∈ operations, operation.IsLayout) :
    SameMeaning c.diagram (c.run operations).diagram := by
  induction operations generalizing c with
  | nil => exact .refl _
  | cons operation rest ih =>
    have hstep := step_perform c operation
    rw [Canvas.run, List.foldl_cons]
    refine .trans (h.sameMeaning_step hstep (layout operation (by simp))) ?_
    exact ih (h.step hstep) fun o ho => layout o (by simp [ho])

/-- The appearance does not show in the query. Moving nodes, tracking the pointer, selecting,
    switching modes and noting classes, with whatever arguments and in whatever number, leave what
    a canvas compiles to: the text, or the error. And so do all differences between two diagrams
    that mean the same, be they in positions, shapes, ends, classes or marks of nodes. -/
theorem Reachable.appearance_not_in_query {allowed : Operation α → Prop} {sizes : ShapeSizes α}
    (reached : Reachable allowed sizes c) (p : PrefixTable) :
    (∀ operations : List (Operation α), (∀ operation ∈ operations, operation.IsLayout) →
        (c.run operations).diagram.compile p = c.diagram.compile p) ∧
      ∀ d d' : Diagram α, SameMeaning d d' → d'.compile p = d.compile p :=
  ⟨fun _ layout => (reached.wellFormed.sameMeaning_run layout).compile_eq p,
    fun _ _ same => same.compile_eq p⟩

/-- The outlined canvas after the end of the drawn edge was dragged, a class was noted, a node was
    moved, and so on. The first operation is refused, since there is no such node. -/
def rearranged : Canvas Float :=
  outlined.run [.moveNode ⟨9⟩ ⟨0, 0⟩, .followPointer ⟨10, 20⟩, .setClass ⟨1⟩ (some "Person"),
    .setMode .drag, .clearSelection, .select (.node ⟨1⟩), .moveNode ⟨1⟩ ⟨50, 60⟩]

theorem appearance_not_in_query_rearranged :
    let text := "SELECT ?p \nWHERE \x7b\n  ?node1 <ex:knows> <ex:Person> .\n\x7d\n\n"
    let spread : Diagram Float := { outlined.diagram with
      nodes := outlined.diagram.nodes.map fun n =>
        { n with position := n.position.offset 100 100, isOptional := true } }
    (rearranged.diagram.nodes.map Node.position = [⟨50, 60⟩, ⟨300, 0⟩] ∧
        rearranged.diagram.nodes.map Node.inferredClass = [some "Person", none] ∧
        rearranged.selected = some (.node ⟨1⟩) ∧ rearranged.mode = .drag) ∧
      rearranged.diagram.compile (.new "http://base/") = .ok text ∧
      spread.compile (.new "http://base/") = .ok text := by
  intro text spread
  have htext : outlined.diagram.compile (.new "http://base/") = .ok text := rfl
  obtain ⟨hrun, hsame⟩ :=
    Reachable.appearance_not_in_query (.perform reachable_sketch trivial) (.new "http://base/")
  refine ⟨⟨rfl, rfl, rfl, rfl⟩, ?_, ?_⟩
  · refine (hrun _ ?_).trans htext
    simp [Operation.IsLayout]
  · exact (hsame outlined.diagram spread (.mapNodes _ fun _ => rfl)).trans htext

end Canvas

end QueryCanvas
