/-
  QueryCanvas.Proofs.Canvas.Deletion

  What deleting a node takes away: the node and the edges at it, and nothing
  else. The selection goes with what was selected.

  So what is left after some deletions depends on the nodes that were deleted,
  and not on their order (`withoutNode_comm`).
-/

import QueryCanvas.Proofs.Canvas.Evolution

namespace QueryCanvas.Canvas

variable {α : Type} {c : Canvas α}

/-! ## What stays -/

/-- The elements of a canvas are what can be described. -/
theorem mem_elements_iff {element : ElementRef} :
    element ∈ c.elements ↔ (c.diagram.describe? element).isSome := by
  cases element with
  | node id => rw [mem_elements_node, Diagram.isSome_describe?_node, List.mem_map]
  | edge id => rw [mem_elements_edge, Diagram.isSome_describe?_edge, List.mem_map]

theorem WellFormed.mem_elements_of_selected (h : c.WellFormed) {element : ElementRef}
    (selected : c.selected = some element) : element ∈ c.elements :=
  mem_elements_iff.2 (h.selected_exists element selected)

/-- A node stays unless it is the deleted one. -/
theorem node_mem_withoutNode {id other : NodeId} :
    .node other ∈ (c.withoutNode id).elements ↔ .node other ∈ c.elements ∧ other ≠ id := by
  simp only [mem_elements_node, withoutNode, List.mem_filter, decide_eq_true_eq]
  constructor
  · rintro ⟨n, ⟨hn, hne⟩, rfl⟩
    exact ⟨⟨n, hn, rfl⟩, hne⟩
  · rintro ⟨⟨n, hn, rfl⟩, hne⟩
    exact ⟨n, ⟨hn, hne⟩, rfl⟩

/-- An edge stays unless it ends at the deleted node. -/
theorem edge_mem_withoutNode {id : NodeId} {other : EdgeId} :
    .edge other ∈ (c.withoutNode id).elements ↔
      ∃ e ∈ c.diagram.edges, e.id = other ∧ e.touches id = false := by
  simp only [mem_elements_edge, withoutNode, List.mem_filter, Bool.not_eq_true']
  constructor
  · rintro ⟨e, ⟨he, haway⟩, hid⟩
    exact ⟨e, he, hid, haway⟩
  · rintro ⟨e, he, hid, haway⟩
    exact ⟨e, ⟨he, haway⟩, hid⟩

theorem elements_withoutNode_subset (c : Canvas α) (id : NodeId) :
    (c.withoutNode id).elements ⊆ c.elements := by
  intro element hmem
  cases element with
  | node other => exact (node_mem_withoutNode.1 hmem).1
  | edge other =>
    obtain ⟨e, he, hid, -⟩ := edge_mem_withoutNode.1 hmem
    exact mem_elements_edge.2 ⟨e, he, hid⟩

theorem withoutNode_comm (c : Canvas α) (a b : NodeId) :
    (c.withoutNode a).withoutNode b = (c.withoutNode b).withoutNode a := by
  have hnodes : (c.diagram.nodes.filter (·.id ≠ a)).filter (·.id ≠ b) =
      (c.diagram.nodes.filter (·.id ≠ b)).filter (·.id ≠ a) := List.filter_comm _ _ _
  have hedges : (c.diagram.edges.filter (!·.touches a)).filter (!·.touches b) =
      (c.diagram.edges.filter (!·.touches b)).filter (!·.touches a) := List.filter_comm _ _ _
  simp only [withoutNode, hnodes, hedges]

/-! ## The selection -/

/-- The selection goes exactly if the selected element is not to be found any more. -/
theorem WellFormed.selectionGoes_iff (h : c.WellFormed) {id : NodeId} :
    c.SelectionGoes id ↔
      ∃ element, c.selected = some element ∧ element ∉ (c.withoutNode id).elements := by
  constructor
  · rintro (hnode | ⟨e, he, htouches, hedge⟩)
    · refine ⟨_, hnode, fun hmem => ?_⟩
      exact (node_mem_withoutNode.1 hmem).2 rfl
    · refine ⟨_, hedge, fun hmem => ?_⟩
      -- no other edge has the identity
      obtain ⟨x, hx, hid, haway⟩ := edge_mem_withoutNode.1 hmem
      rw [h.edge_unique hx he hid, htouches] at haway
      cases haway
  · rintro ⟨element, hselected, hgone⟩
    have hmem := h.mem_elements_of_selected hselected
    cases element with
    | node other =>
      left
      by_contra hother
      refine hgone (node_mem_withoutNode.2 ⟨hmem, ?_⟩)
      rintro rfl
      exact hother hselected
    | edge other =>
      right
      obtain ⟨e, he, rfl⟩ := mem_elements_edge.1 hmem
      refine ⟨e, he, ?_, hselected⟩
      by_contra haway
      exact hgone (edge_mem_withoutNode.2 ⟨e, he, rfl, Bool.eq_false_iff.2 haway⟩)

/-- What is selected among some elements is what was selected, or nothing. -/
theorem selected_filter_eq_self {elements : List ElementRef}
    (stays : ∀ element, c.selected = some element → element ∈ elements) :
    c.selected.filter (· ∈ elements) = c.selected := by
  cases hs : c.selected with
  | none => rfl
  | some element => simp [Option.filter_some, stays element hs]

/-! ## One deletion -/

/-- The edges at a node, in their order. -/
def edgesAt (c : Canvas α) (id : NodeId) : List EdgeId :=
  (c.diagram.edges.filter (·.touches id)).map Edge.id

/-- The canvas without a node, the edges at it, and the selection of any of these. -/
def pruned (c : Canvas α) (id : NodeId) (feed : Option (List (Event α))) : Canvas α :=
  { c.withoutNode id with
    selected := c.selected.filter (· ∈ (c.withoutNode id).elements)
    feed := feed }

/-- A node that exists is deleted with the edges at it, and these are the answer. -/
theorem WellFormed.deleteNode_eq (h : c.WellFormed) {id : NodeId} (there : (c.node? id).isSome) :
    ∃ feed, c.deleteNode id = (c.pruned id feed, .ok (c.edgesAt id)) := by
  obtain ⟨n, found⟩ := Option.isSome_iff_exists.1 there
  have hanswer : (c.deleteNode id).2 = .ok (c.edgesAt id) := by
    simp only [deleteNode, found]
    rfl
  suffices hcanvas : ∃ feed, (c.deleteNode id).1 = c.pruned id feed by
    obtain ⟨feed, hcanvas⟩ := hcanvas
    exact ⟨feed, Prod.ext hcanvas hanswer⟩
  rcases deleteNode_cases found with ⟨hdelete, hgoes⟩ | ⟨hdelete, hstays⟩
  · obtain ⟨element, hselected, hgone⟩ := h.selectionGoes_iff.1 hgoes
    have hnone : c.selected.filter (· ∈ (c.withoutNode id).elements) = none := by
      simp [hselected, Option.filter_some, hgone]
    obtain ⟨feed, hclear⟩ := (c.withoutNode id).clearSelection_eq
    refine ⟨(c.deleteNode id).1.feed, ?_⟩
    rw [pruned, hnone, hdelete, hclear]
    rfl
  · have hkept : c.selected.filter (· ∈ (c.withoutNode id).elements) = c.selected := by
      refine selected_filter_eq_self fun element hselected => ?_
      by_contra hgone
      exact hstays (h.selectionGoes_iff.2 ⟨element, hselected, hgone⟩)
    refine ⟨(c.deleteNode id).1.feed, ?_⟩
    rw [pruned, hkept, hdelete]
    rfl

/-- Any other node is still there. -/
theorem isSome_node?_pruned {id other : NodeId} (there : (c.node? other).isSome)
    (different : other ≠ id) (feed : Option (List (Event α))) :
    ((c.pruned id feed).node? other).isSome := by
  have hmem : other ∈ c.diagram.nodes.map Node.id := Diagram.isSome_node?_iff.1 there
  exact Diagram.isSome_node?_iff.2 (Diagram.mem_ids_filter different hmem)

/-- Two deletions leave the selection if it is on neither. -/
theorem pruned_pruned (c : Canvas α) (a b : NodeId) (feed feed' : Option (List (Event α))) :
    (c.pruned a feed).pruned b feed' =
      { (c.withoutNode a).withoutNode b with
        selected := c.selected.filter (· ∈ ((c.withoutNode a).withoutNode b).elements)
        feed := feed' } := by
  have hselected : (c.selected.filter (· ∈ (c.withoutNode a).elements)).filter
        (· ∈ ((c.withoutNode a).withoutNode b).elements) =
      c.selected.filter (· ∈ ((c.withoutNode a).withoutNode b).elements) := by
    rw [Option.filter_filter]
    congr 1
    funext element
    have hsubset := @elements_withoutNode_subset _ (c.withoutNode a) b element
    by_cases hmem : element ∈ ((c.withoutNode a).withoutNode b).elements
    · simp [hmem, hsubset hmem]
    · simp [hmem]
  show ({ (c.withoutNode a).withoutNode b with
    selected := (c.selected.filter (· ∈ (c.withoutNode a).elements)).filter
      (· ∈ ((c.withoutNode a).withoutNode b).elements)
    feed := feed' } : Canvas α) = _
  rw [hselected]

/-- Together, two deletions answer with the edges at either node. -/
theorem edgesAt_append_perm (c : Canvas α) (a b : NodeId) :
    (c.edgesAt a ++ (c.withoutNode a).edgesAt b).Perm
      ((c.diagram.edges.filter fun e => e.touches a || e.touches b).map Edge.id) := by
  have hfirst : (c.diagram.edges.filter fun e => e.touches a || e.touches b).filter
      (·.touches a) = c.diagram.edges.filter (·.touches a) := by
    rw [List.filter_filter]
    refine List.filter_congr fun e _ => ?_
    cases e.touches a <;> simp
  have hsecond : (c.diagram.edges.filter fun e => e.touches a || e.touches b).filter
      (!·.touches a) = (c.diagram.edges.filter (!·.touches a)).filter (·.touches b) := by
    rw [List.filter_filter, List.filter_filter]
    refine List.filter_congr fun e _ => ?_
    cases e.touches a <;> simp
  have hperm := List.filter_append_perm (Edge.touches · a)
    (c.diagram.edges.filter fun e => e.touches a || e.touches b)
  rw [hfirst, hsecond] at hperm
  have hmap := hperm.map Edge.id
  rwa [List.map_append] at hmap

/-! ## Other deletions -/

@[simp] theorem selected_announce (c : Canvas α) : c.announce.selected = c.selected := rfl

@[simp] theorem elements_announce (c : Canvas α) : c.announce.elements = c.elements := rfl

@[simp] theorem selected_clearSelection (c : Canvas α) : c.clearSelection.selected = none := by
  obtain ⟨feed, hclear⟩ := c.clearSelection_eq
  rw [hclear]

@[simp] theorem elements_clearSelection (c : Canvas α) :
    c.clearSelection.elements = c.elements := by
  obtain ⟨feed, hclear⟩ := c.clearSelection_eq
  rw [hclear]
  rfl

/-- Deleting an edge drops the selection exactly if it is on that edge. -/
theorem WellFormed.selected_deleteEdge (h : c.WellFormed) (id : EdgeId) :
    (c.deleteEdge id).1.selected = c.selected.filter (· ∈ (c.deleteEdge id).1.elements) := by
  unfold deleteEdge
  split
  · exact (selected_filter_eq_self fun _ => h.mem_elements_of_selected).symm
  next e found =>
  dsimp only
  split
  · next hselected => simp [hselected, Option.filter_some]
  · next hother =>
    symm
    apply selected_filter_eq_self
    intro element hselected
    have hmem := h.mem_elements_of_selected hselected
    rw [elements_announce]
    cases element with
    | node other => simpa using hmem
    | edge other =>
      obtain ⟨x, hx, rfl⟩ := mem_elements_edge.1 hmem
      refine mem_elements_edge.2 ⟨x, List.mem_filter.2 ⟨hx, ?_⟩, rfl⟩
      have hne : x.id ≠ id := by
        rintro rfl
        exact hother hselected
      simpa using hne

/-- Nothing is selected on a canvas without elements. -/
theorem selected_clear (c : Canvas α) :
    c.clear.selected = c.selected.filter (· ∈ c.clear.elements) := by
  have hempty : c.clear.elements = [] := by
    rw [clear, elements_announce, elements_clearSelection]
    rfl
  have hnone : c.selected.filter (· ∈ c.clear.elements) = none := by
    rw [hempty]
    simp
  rw [hnone, clear, selected_announce, selected_clearSelection]

/-! ## Every canvas -/

/-- `d` is what is left of `c` without a node and the edges that start or end there, which are
    `removed`. All other nodes and edges are as they were and in their order, and so is what is
    selected among them. -/
structure Lacks (c : Canvas α) (id : NodeId) (removed : List EdgeId) (d : Canvas α) : Prop where
  nodes : d.diagram.nodes.Sublist c.diagram.nodes
  edges : d.diagram.edges.Sublist c.diagram.edges
  ids : removed.Sublist (c.diagram.edges.map Edge.id)
  node_stays_iff : ∀ n ∈ c.diagram.nodes, n ∈ d.diagram.nodes ↔ n.id ≠ id
  edge_stays_iff : ∀ e ∈ c.diagram.edges, e ∈ d.diagram.edges ↔
    e.subject.node? ≠ some id ∧ e.object.node? ≠ some id
  edge_removed_iff : ∀ e ∈ c.diagram.edges, e.id ∈ removed ↔ e ∉ d.diagram.edges
  selected : d.selected = c.selected.filter (· ∈ d.elements)
  completing : d.completing = d.diagram.edges.any (!·.complete)
  rest : d = { c with
    diagram := d.diagram, completing := d.completing, selected := d.selected, feed := d.feed }

theorem WellFormed.lacks_pruned (h : c.WellFormed) (id : NodeId)
    (feed : Option (List (Event α))) : c.Lacks id (c.edgesAt id) (c.pruned id feed) where
  nodes := List.filter_sublist
  edges := List.filter_sublist
  ids := List.filter_sublist.map Edge.id
  node_stays_iff n hn := by
    show n ∈ c.diagram.nodes.filter (·.id ≠ id) ↔ _
    simp [hn]
  edge_stays_iff e he := by
    show e ∈ c.diagram.edges.filter (!·.touches id) ↔ _
    simp [he, Edge.touches]
  edge_removed_iff e he := by
    have hstays : e ∈ (c.pruned id feed).diagram.edges ↔ e.touches id = false := by
      show e ∈ c.diagram.edges.filter (!·.touches id) ↔ _
      rw [List.mem_filter, Bool.not_eq_true']
      exact and_iff_right he
    rw [hstays, Bool.not_eq_false, edgesAt, List.mem_map]
    constructor
    · rintro ⟨x, hx, hid⟩
      obtain ⟨hx, htouches⟩ := List.mem_filter.1 hx
      rwa [h.edge_unique hx he hid] at htouches
    · exact fun htouches => ⟨e, List.mem_filter.2 ⟨he, htouches⟩, rfl⟩
  selected := rfl
  completing := rfl
  rest := rfl

variable [Scalar α]

/-- Deleting a node that exists takes away the node and the edges that start or end there, complete
    or not, and answers with these edges. Two nodes can be deleted in either order: in the end the
    canvas is the same but for what has been told, and the same edges have been taken away. -/
theorem Reachable.deletes_exactly {allowed : Operation α → Prop} {sizes : ShapeSizes α}
    (reached : Reachable allowed sizes c) {a : NodeId} (there : (c.node? a).isSome) :
    (∃ removed, (c.deleteNode a).2 = .ok removed ∧ c.Lacks a removed (c.deleteNode a).1) ∧
      ∀ b, (c.node? b).isSome → b ≠ a → ∃ first second first' second' feed,
        (c.deleteNode a).2 = .ok first ∧ ((c.deleteNode a).1.deleteNode b).2 = .ok second ∧
          (c.deleteNode b).2 = .ok first' ∧ ((c.deleteNode b).1.deleteNode a).2 = .ok second' ∧
          (first ++ second).Perm (first' ++ second') ∧
          ((c.deleteNode a).1.deleteNode b).1 =
            { ((c.deleteNode b).1.deleteNode a).1 with feed := feed } := by
  have wf : c.WellFormed := reached.wellFormed
  obtain ⟨feed, hdelete⟩ := wf.deleteNode_eq there
  refine ⟨⟨c.edgesAt a, by rw [hdelete], ?_⟩, fun b hb different => ?_⟩
  · rw [hdelete]
    exact wf.lacks_pruned a feed
  obtain ⟨feed', hdelete'⟩ := wf.deleteNode_eq hb
  -- the second deletions find their nodes, and the canvases that they start from are well-formed
  have hfirst : (c.pruned a feed).WellFormed := by
    have hkept := wf.step (step_deleteNode c a)
    rwa [hdelete] at hkept
  have hfirst' : (c.pruned b feed').WellFormed := by
    have hkept := wf.step (step_deleteNode c b)
    rwa [hdelete'] at hkept
  obtain ⟨told, hsecond⟩ := hfirst.deleteNode_eq (isSome_node?_pruned hb different feed)
  obtain ⟨told', hsecond'⟩ := hfirst'.deleteNode_eq (isSome_node?_pruned there different.symm feed')
  rw [hdelete, hdelete', hsecond, hsecond']
  refine ⟨_, _, _, _, told, rfl, rfl, rfl, rfl, ?_, ?_⟩
  · have hboth : (c.diagram.edges.filter fun e => e.touches b || e.touches a) =
        c.diagram.edges.filter fun e => e.touches a || e.touches b :=
      List.filter_congr fun e _ => Bool.or_comm _ _
    have hperm := c.edgesAt_append_perm b a
    rw [hboth] at hperm
    exact (c.edgesAt_append_perm a b).trans hperm.symm
  · rw [pruned_pruned, pruned_pruned, withoutNode_comm]

/-- Three nodes in a row, a loop at the first, an edge being drawn from the last, and the edge
    between the first two is selected. -/
def chained : Canvas Float :=
  (Canvas.new defaultSizes).run [
    .createNode ⟨0, 0⟩ .unboundVariable "?", .createNode ⟨300, 0⟩ .unboundVariable "?",
    .createNode ⟨600, 0⟩ .unboundVariable "?", .connect ⟨1⟩ ⟨1⟩ "ex:knows",
    .connect ⟨1⟩ ⟨2⟩ "ex:knows", .connect ⟨2⟩ ⟨3⟩ "ex:knows", .startEdge ⟨3⟩ "?",
    .select (.edge ⟨2⟩)]

theorem deletes_exactly_chained :
    (chained.deleteNode ⟨1⟩).2 = .ok [⟨1⟩, ⟨2⟩] ∧
      (chained.deleteNode ⟨1⟩).1.selected = none ∧
      ((chained.deleteNode ⟨1⟩).1.deleteNode ⟨3⟩).2 = .ok [⟨3⟩, ⟨4⟩] ∧
      (∃ feed, ((chained.deleteNode ⟨1⟩).1.deleteNode ⟨3⟩).1 =
        { ((chained.deleteNode ⟨3⟩).1.deleteNode ⟨1⟩).1 with feed := feed }) := by
  have hreached : Reachable (fun _ => True) defaultSizes chained :=
    Reachable.new.run fun _ _ => trivial
  obtain ⟨⟨removed, hremoved, hlacks⟩, horders⟩ :=
    Reachable.deletes_exactly hreached (a := ⟨1⟩) rfl
  obtain ⟨first, second, first', second', feed, -, -, -, -, -, hsame⟩ :=
    horders ⟨3⟩ rfl (by decide)
  refine ⟨rfl, ?_, rfl, feed, hsame⟩
  rw [hlacks.selected]
  rfl

end QueryCanvas.Canvas
