/-
  QueryCanvas.Proofs.Canvas.Shown

  What an element of a diagram shows (`Diagram.describe?`) after a change of
  the diagram.

  An element shows its content and its kind. So it shows the same as before
  unless it is changed in one of these, or goes. Moving nodes, ends and marks
  about changes nothing that is shown, and nothing that is added hides an
  element that was there.
-/

import Mathlib.Data.List.Find
import QueryCanvas.Proofs.Canvas.Layout

namespace QueryCanvas.Diagram

variable {α : Type}

/-! ## Changed elements -/

/-- A change of all edges that keeps identities shows in every look-up. -/
theorem edge?_map (d : Diagram α) {f : Edge α → Edge α} (keeps : ∀ e, (f e).id = e.id)
    (id : EdgeId) :
    ({ d with edges := d.edges.map f } : Diagram α).edge? id = (d.edge? id).map f := by
  have hp : (fun e : Edge α => decide (e.id = id)) ∘ f = fun e => decide (e.id = id) := by
    funext e
    simp [keeps]
  rw [edge?, edge?, List.find?_map, hp]

/-- Nodes may change in whatever the element in question does not show. -/
theorem describe?_mapNodes (d : Diagram α) {f : Node α → Node α} (keeps : ∀ n, (f n).id = n.id)
    (element : ElementRef)
    (shows : ∀ n ∈ d.nodes, element = .node n.id →
      (f n).content = n.content ∧ (f n).kind = n.kind) :
    ({ d with nodes := d.nodes.map f } : Diagram α).describe? element = d.describe? element := by
  cases element with
  | edge id => rfl
  | node id =>
    simp only [describe?, node?_map d keeps]
    cases hn : d.node? id with
    | none => rfl
    | some n =>
      obtain ⟨hmem, rfl⟩ := mem_of_node? hn
      obtain ⟨hcontent, hkind⟩ := shows n hmem rfl
      simp [hcontent, hkind]

/-- Edges may change in whatever the element in question does not show. -/
theorem describe?_mapEdges (d : Diagram α) {f : Edge α → Edge α} (keeps : ∀ e, (f e).id = e.id)
    (element : ElementRef)
    (shows : ∀ e ∈ d.edges, element = .edge e.id →
      (f e).content = e.content ∧ (f e).kind = e.kind) :
    ({ d with edges := d.edges.map f } : Diagram α).describe? element = d.describe? element := by
  cases element with
  | node id => rfl
  | edge id =>
    simp only [describe?, edge?_map d keeps]
    cases he : d.edge? id with
    | none => rfl
    | some e =>
      obtain ⟨hmem, rfl⟩ := mem_of_edge? he
      obtain ⟨hcontent, hkind⟩ := shows e hmem rfl
      simp [hcontent, hkind]

/-- A changed node leaves what another element shows alone, and what it shows itself if content and
    kind are kept. -/
theorem describe?_modifyNode (d : Diagram α) (id : NodeId) {f : Node α → Node α}
    (keeps : ∀ n, (f n).id = n.id) (element : ElementRef)
    (shows : ∀ n ∈ d.nodes, n.id = id → element = .node id →
      (f n).content = n.content ∧ (f n).kind = n.kind) :
    (d.modifyNode id f).describe? element = d.describe? element := by
  refine describe?_mapNodes d (fun n => ?_) element fun n hn helement => ?_
  · split <;> simp [keeps]
  · split
    · next hid => exact shows n hn hid (hid ▸ helement)
    · exact ⟨rfl, rfl⟩

/-- A changed node shows what it was changed to. -/
theorem describe?_modifyNode_self {d : Diagram α} {id : NodeId} {n : Node α}
    (found : d.node? id = some n) {f : Node α → Node α} (keeps : ∀ n, (f n).id = n.id) :
    (d.modifyNode id f).describe? (.node id) =
      some ⟨.node id, (f n).content, .node (f n).kind⟩ := by
  have hkeeps : ∀ m : Node α, (if m.id = id then f m else m).id = m.id := by
    intro m
    split <;> simp [keeps]
  have hid : n.id = id := (mem_of_node? found).2
  have hfound : (d.modifyNode id f).node? id = some (f n) := by
    rw [modifyNode, node?_map d hkeeps, found, Option.map_some, if_pos hid]
  rw [describe?, hfound]
  rfl

/-- A changed edge leaves what another element shows alone, and what it shows itself if content and
    kind are kept. -/
theorem describe?_modifyEdge (d : Diagram α) (id : EdgeId) {f : Edge α → Edge α}
    (keeps : ∀ e, (f e).id = e.id) (element : ElementRef)
    (shows : ∀ e ∈ d.edges, e.id = id → element = .edge id →
      (f e).content = e.content ∧ (f e).kind = e.kind) :
    (d.modifyEdge id f).describe? element = d.describe? element := by
  refine describe?_mapEdges d (fun e => ?_) element fun e he helement => ?_
  · split <;> simp [keeps]
  · split
    · next hid => exact shows e he hid (hid ▸ helement)
    · exact ⟨rfl, rfl⟩

/-- Edges show the same wherever they end. -/
theorem describe?_reanchor [Scalar α] (d : Diagram α) (id : NodeId) (element : ElementRef) :
    (d.reanchor id).describe? element = d.describe? element := by
  refine describe?_mapEdges d (fun e => ?_) element fun e _ _ => ?_
  · exact (Edge.frame_eq_iff.1 (d.frame_reanchoredEdge id e)).1
  · obtain ⟨hkind, hcontent⟩ := d.reanchoredEdge_shows id e
    exact ⟨hcontent, hkind⟩

/-! ## Added and removed elements -/

/-- An element that is there shows the same with more nodes and edges behind it. -/
theorem describe?_append {d : Diagram α} {element : ElementRef}
    (h : (d.describe? element).isSome) (nodes : List (Node α)) (edges : List (Edge α)) :
    (⟨d.nodes ++ nodes, d.edges ++ edges⟩ : Diagram α).describe? element =
      d.describe? element := by
  cases element with
  | node id =>
    have hfound : (d.nodes.find? (·.id = id)).isSome := by simpa [describe?, node?] using h
    obtain ⟨n, hn⟩ := Option.isSome_iff_exists.1 hfound
    simp [describe?, node?, List.find?_append, hn]
  | edge id =>
    have hfound : (d.edges.find? (·.id = id)).isSome := by simpa [describe?, edge?] using h
    obtain ⟨e, he⟩ := Option.isSome_iff_exists.1 hfound
    simp [describe?, edge?, List.find?_append, he]

/-- An element that stays shows the same when others go. -/
theorem describe?_filter (d : Diagram α) {p : Node α → Bool} {q : Edge α → Bool}
    (element : ElementRef) (nodeStays : ∀ n ∈ d.nodes, element = .node n.id → p n = true)
    (edgeStays : ∀ e ∈ d.edges, element = .edge e.id → q e = true) :
    (⟨d.nodes.filter p, d.edges.filter q⟩ : Diagram α).describe? element =
      d.describe? element := by
  cases element with
  | node id =>
    have hfind : (d.nodes.filter p).find? (·.id = id) = d.nodes.find? (·.id = id) := by
      rw [List.find?_filter]
      refine List.find?_congr fun n hn => ?_
      by_cases hid : n.id = id
      · simp [hid, nodeStays n hn (hid ▸ rfl)]
      · simp [hid]
    simp [describe?, node?, hfind]
  | edge id =>
    have hfind : (d.edges.filter q).find? (·.id = id) = d.edges.find? (·.id = id) := by
      rw [List.find?_filter]
      refine List.find?_congr fun e he => ?_
      by_cases hid : e.id = id
      · simp [hid, edgeStays e he (hid ▸ rfl)]
      · simp [hid]
    simp [describe?, edge?, hfind]

end QueryCanvas.Diagram
