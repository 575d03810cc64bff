/-
  QueryCanvas.Proofs.Diagram.Frame

  Looking up elements of a diagram, and the frame of a diagram: which nodes
  and edges it has, in which order, and which nodes its edges join.

  Contents, kinds, marks and coordinates are no part of the frame. Most changes
  of a diagram keep it, and what depends on the frame alone need not be looked
  at again for them.
-/

import Mathlib.Data.List.Nodup
import QueryCanvas.Diagram

namespace QueryCanvas

variable {α : Type}

namespace Diagram

/-! ## Looking up -/

theorem mem_of_node? {d : Diagram α} {id : NodeId} {n : Node α} (h : d.node? id = some n) :
    n ∈ d.nodes ∧ n.id = id :=
  ⟨List.mem_of_find?_eq_some h, by simpa using List.find?_some h⟩

theorem mem_of_edge? {d : Diagram α} {id : EdgeId} {e : Edge α} (h : d.edge? id = some e) :
    e ∈ d.edges ∧ e.id = id :=
  ⟨List.mem_of_find?_eq_some h, by simpa using List.find?_some h⟩

theorem mem_of_incompleteEdge? {d : Diagram α} {e : Edge α} (h : d.incompleteEdge? = some e) :
    e ∈ d.edges ∧ e.complete = false :=
  ⟨List.mem_of_find?_eq_some h, by simpa using List.find?_some h⟩

theorem isSome_node?_iff {d : Diagram α} {id : NodeId} :
    (d.node? id).isSome ↔ id ∈ d.nodes.map Node.id := by
  simp [node?]

theorem isSome_edge?_iff {d : Diagram α} {id : EdgeId} :
    (d.edge? id).isSome ↔ id ∈ d.edges.map Edge.id := by
  simp [edge?]

theorem isSome_describe?_node {d : Diagram α} {id : NodeId} :
    (d.describe? (.node id)).isSome ↔ id ∈ d.nodes.map Node.id := by
  simpa [describe?] using isSome_node?_iff

theorem isSome_describe?_edge {d : Diagram α} {id : EdgeId} :
    (d.describe? (.edge id)).isSome ↔ id ∈ d.edges.map Edge.id := by
  simpa [describe?] using isSome_edge?_iff

/-- A description says what it is about. -/
theorem element_of_describe? {d : Diagram α} {element : ElementRef} {shown : Selection}
    (h : d.describe? element = some shown) : shown.element = element := by
  cases element with
  | node id =>
    obtain ⟨n, -, rfl⟩ := Option.map_eq_some_iff.1 h
    rfl
  | edge id =>
    obtain ⟨e, -, rfl⟩ := Option.map_eq_some_iff.1 h
    rfl

/-- What can be described still can with more nodes and edges around. -/
theorem isSome_describe?_of_subset {d d' : Diagram α} {element : ElementRef}
    (h : (d.describe? element).isSome) (hnodes : d.nodes.map Node.id ⊆ d'.nodes.map Node.id)
    (hedges : d.edges.map Edge.id ⊆ d'.edges.map Edge.id) : (d'.describe? element).isSome := by
  cases element with
  | node id =>
    rw [isSome_describe?_node] at h ⊢
    exact hnodes h
  | edge id =>
    rw [isSome_describe?_edge] at h ⊢
    exact hedges h

/-- Without repeated identities every node is found under its own. -/
theorem node?_of_mem {d : Diagram α} (distinct : (d.nodes.map Node.id).Nodup) {n : Node α}
    (h : n ∈ d.nodes) : d.node? n.id = some n := by
  obtain ⟨m, hm⟩ := Option.isSome_iff_exists.1
    (isSome_node?_iff.2 (List.mem_map_of_mem (f := Node.id) h))
  obtain ⟨hmem, hid⟩ := mem_of_node? hm
  rw [hm, List.inj_on_of_nodup_map distinct hmem h hid]

/-- A change of all nodes that keeps identities shows in every look-up. -/
theorem node?_map (d : Diagram α) {f : Node α → Node α} (keeps : ∀ n, (f n).id = n.id)
    (id : NodeId) :
    ({ d with nodes := d.nodes.map f } : Diagram α).node? id = (d.node? id).map f := by
  have hp : (fun n : Node α => decide (n.id = id)) ∘ f = fun n => decide (n.id = id) := by
    funext n
    simp [keeps]
  rw [node?, node?, List.find?_map, hp]

theorem node?_append_of_isSome {d : Diagram α} {id : NodeId} (h : (d.node? id).isSome)
    (more : List (Node α)) :
    ({ d with nodes := d.nodes ++ more } : Diagram α).node? id = d.node? id := by
  obtain ⟨n, hn⟩ := Option.isSome_iff_exists.1 h
  rw [hn]
  simp only [node?] at hn ⊢
  rw [List.find?_append, hn, Option.some_or]

/-- Taking a node away leaves the identities of the others. -/
theorem mem_ids_filter {nodes : List (Node α)} {id other : NodeId} (h : other ≠ id)
    (hmem : other ∈ nodes.map Node.id) : other ∈ (nodes.filter (·.id ≠ id)).map Node.id := by
  obtain ⟨n, hn, rfl⟩ := List.mem_map.1 hmem
  exact List.mem_map_of_mem (List.mem_filter.2 ⟨hn, by simpa using h⟩)

/-! ## One element changed -/

/-- What a change of one node leaves of each node, it leaves of all of them. -/
theorem map_modifyNode {β : Type} {view : Node α → β} (d : Diagram α) (id : NodeId)
    {f : Node α → Node α} (keeps : ∀ n, view (f n) = view n) :
    (d.modifyNode id f).nodes.map view = d.nodes.map view := by
  rw [modifyNode, List.map_map]
  refine List.map_congr_left fun n _ => ?_
  rw [Function.comp_apply]
  split
  · exact keeps n
  · rfl

theorem map_modifyEdge {β : Type} {view : Edge α → β} (d : Diagram α) (id : EdgeId)
    {f : Edge α → Edge α} (keeps : ∀ e ∈ d.edges, e.id = id → view (f e) = view e) :
    (d.modifyEdge id f).edges.map view = d.edges.map view := by
  rw [modifyEdge, List.map_map]
  refine List.map_congr_left fun e he => ?_
  rw [Function.comp_apply]
  split
  · exact keeps e he ‹_›
  · rfl

theorem mem_modifyEdge {d : Diagram α} {e : Edge α} (h : e ∈ d.edges) {f : Edge α → Edge α} :
    f e ∈ (d.modifyEdge e.id f).edges :=
  List.mem_map.2 ⟨e, h, if_pos rfl⟩

theorem mem_modifyEdge_of_ne {d : Diagram α} {id : EdgeId} {e : Edge α} (h : e ∈ d.edges)
    (other : e.id ≠ id) {f : Edge α → Edge α} : e ∈ (d.modifyEdge id f).edges :=
  List.mem_map.2 ⟨e, h, if_neg other⟩

end Diagram

/-! ## Frames -/

/-- The identity of an edge, the nodes at its ends, and whether it is complete. -/
structure EdgeFrame where
  id : EdgeId
  subject : Option NodeId
  object : Option NodeId
  complete : Bool
deriving DecidableEq, Repr

/-- The frame of an edge. -/
def Edge.frame (e : Edge α) : EdgeFrame := ⟨e.id, e.subject.node?, e.object.node?, e.complete⟩

/-- Two diagrams have the same frame: the same nodes and edges in the same order, with the same
    nodes at the ends of the edges. -/
structure SameFrame (d d' : Diagram α) : Prop where
  nodes : d'.nodes.map Node.id = d.nodes.map Node.id
  edges : d'.edges.map Edge.frame = d.edges.map Edge.frame

namespace SameFrame

theorem refl (d : Diagram α) : SameFrame d d := ⟨rfl, rfl⟩

theorem trans {a b c : Diagram α} (hab : SameFrame a b) (hbc : SameFrame b c) : SameFrame a c :=
  ⟨hbc.nodes.trans hab.nodes, hbc.edges.trans hab.edges⟩

/-- Changing the nodes but not their identities keeps the frame. -/
theorem mapNodes (d : Diagram α) {f : Node α → Node α} (keeps : ∀ n, (f n).id = n.id) :
    SameFrame d { d with nodes := d.nodes.map f } :=
  ⟨by simp [keeps], rfl⟩

theorem modifyNode (d : Diagram α) (id : NodeId) {f : Node α → Node α}
    (keeps : ∀ n, (f n).id = n.id) : SameFrame d (d.modifyNode id f) :=
  ⟨d.map_modifyNode id keeps, rfl⟩

/-- Changing the edges but not their frames keeps the frame. -/
theorem mapEdges (d : Diagram α) {f : Edge α → Edge α}
    (keeps : ∀ e ∈ d.edges, (f e).frame = e.frame) :
    SameFrame d { d with edges := d.edges.map f } :=
  ⟨rfl, by rw [List.map_map]; exact List.map_congr_left keeps⟩

theorem modifyEdge (d : Diagram α) (id : EdgeId) {f : Edge α → Edge α}
    (keeps : ∀ e ∈ d.edges, e.id = id → (f e).frame = e.frame) :
    SameFrame d (d.modifyEdge id f) :=
  ⟨rfl, d.map_modifyEdge id keeps⟩

/-- Marking an edge together with some nodes keeps the frame. -/
theorem mark (d : Diagram α) (id : EdgeId) (value : Bool) (ends : List NodeId) :
    SameFrame d
      { d.modifyEdge id fun e => { e with isOptional := value } with
        nodes := d.nodes.map fun n =>
          if ends.contains n.id then { n with isOptional := value } else n } := by
  refine (SameFrame.modifyEdge d id ?_).trans (.mapNodes _ ?_)
  · exact fun _ _ _ => rfl
  · intro n
    split <;> rfl

end SameFrame

@[simp] theorem Endpoint.node?_reanchored (e : Endpoint α) (p : Point α) :
    (e.reanchored p).node? = e.node? := by
  cases e <;> rfl

/-- Moving the ends of an edge along their nodes keeps its frame. -/
theorem Diagram.frame_reanchoredEdge [Scalar α] (d : Diagram α) (id : NodeId) (e : Edge α) :
    (d.reanchoredEdge id e).frame = e.frame := by
  unfold reanchoredEdge
  split
  · split
    · dsimp only
      split <;> simp [Edge.frame]
    · rfl
  · split
    · split <;> simp [Edge.frame]
    · rfl

theorem SameFrame.reanchor [Scalar α] (d : Diagram α) (id : NodeId) :
    SameFrame d (d.reanchor id) :=
  mapEdges d fun e _ => d.frame_reanchoredEdge id e

theorem SameFrame.modifyNode_reanchor [Scalar α] (d : Diagram α) (id : NodeId)
    {f : Node α → Node α} (keeps : ∀ n, (f n).id = n.id) :
    SameFrame d ((d.modifyNode id f).reanchor id) :=
  (modifyNode d id keeps).trans (reanchor _ id)

/-- What has a frame has the identity in it, and so on for the other parts. -/
theorem Edge.frame_eq_iff {e e' : Edge α} :
    e'.frame = e.frame ↔
      e'.id = e.id ∧ e'.subject.node? = e.subject.node? ∧ e'.object.node? = e.object.node? ∧
        e'.complete = e.complete := by
  simp [Edge.frame]

end QueryCanvas
