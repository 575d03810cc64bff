/-
  QueryCanvas.Proofs.Canvas.Structure

  The structural invariant of the canvas: identities ascend and are not handed
  out twice, edges join nodes that exist, at most one edge is being drawn, and
  the selection names something. It depends on the frame of the diagram only,
  so it is looked at again only where a step changes the frame.
-/

import Mathlib.Data.List.Pairwise
import QueryCanvas.Proofs.Canvas.Reachable

namespace QueryCanvas

variable {α : Type}

@[simp] theorem Edge.touches_iff {e : Edge α} {id : NodeId} :
    e.touches id = true ↔ e.subject.node? = some id ∨ e.object.node? = some id := by
  simp [touches]

/-- An edge between two nodes touches no other. -/
theorem Edge.eq_or_eq_of_touches {e : Edge α} {subject object id : NodeId}
    (hs : e.subject.node? = some subject) (ho : e.object.node? = some object)
    (h : e.touches id) : id = subject ∨ id = object := by
  rw [touches_iff, hs, ho] at h
  rcases h with h | h
  · exact .inl (Option.some.inj h).symm
  · exact .inr (Option.some.inj h).symm

/-- An edge touches the nodes at its ends. -/
theorem Edge.mem_nodes_iff {e : Edge α} {id : NodeId} : id ∈ e.nodes ↔ e.touches id = true := by
  rw [touches_iff]
  simp [nodes, eq_comm]

namespace Canvas

/-- The structural invariant. -/
structure WellFormed (c : Canvas α) : Prop where
  nodes_ascending : (c.diagram.nodes.map Node.id).Pairwise (·.index < ·.index)
  nodes_below : ∀ n ∈ c.diagram.nodes, n.id.index < c.nextNode
  edges_ascending : (c.diagram.edges.map Edge.id).Pairwise (·.index < ·.index)
  edges_below : ∀ e ∈ c.diagram.edges, e.id.index < c.nextEdge
  ends_exist : ∀ e ∈ c.diagram.edges, ∀ id, e.touches id → (c.node? id).isSome
  subject_anchored : ∀ e ∈ c.diagram.edges, e.subject.node?.isSome
  object_anchored : ∀ e ∈ c.diagram.edges, e.object.node?.isSome = e.complete
  one_incomplete : c.diagram.edges.countP (!·.complete) ≤ 1
  completing_eq : c.completing = c.diagram.edges.any (!·.complete)
  selected_exists : ∀ element, c.selected = some element → (c.diagram.describe? element).isSome

end Canvas

/-! ## What frames decide -/

namespace SameFrame

variable {d d' : Diagram α}

theorem edgeIds (h : SameFrame d d') : d'.edges.map Edge.id = d.edges.map Edge.id := by
  have := congrArg (List.map EdgeFrame.id) h.edges
  simpa [Function.comp_def, Edge.frame] using this

theorem exists_edge (h : SameFrame d d') {e' : Edge α} (he : e' ∈ d'.edges) :
    ∃ e ∈ d.edges, e.frame = e'.frame := by
  have : e'.frame ∈ d.edges.map Edge.frame := h.edges ▸ List.mem_map_of_mem he
  simpa using this

theorem isSome_node? (h : SameFrame d d') (id : NodeId) :
    (d'.node? id).isSome ↔ (d.node? id).isSome := by
  rw [Diagram.isSome_node?_iff, Diagram.isSome_node?_iff, h.nodes]

theorem isSome_describe? (h : SameFrame d d') (element : ElementRef) :
    (d'.describe? element).isSome ↔ (d.describe? element).isSome := by
  cases element with
  | node id => rw [Diagram.isSome_describe?_node, Diagram.isSome_describe?_node, h.nodes]
  | edge id => rw [Diagram.isSome_describe?_edge, Diagram.isSome_describe?_edge, h.edgeIds]

theorem countP_incomplete (h : SameFrame d d') :
    d'.edges.countP (!·.complete) = d.edges.countP (!·.complete) := by
  have := congrArg (List.countP (!·.complete)) h.edges
  simpa [List.countP_map, Function.comp_def, Edge.frame] using this

theorem any_incomplete (h : SameFrame d d') :
    d'.edges.any (!·.complete) = d.edges.any (!·.complete) := by
  have := congrArg (List.any · (!·.complete)) h.edges
  simpa [List.any_map, Function.comp_def, Edge.frame] using this

end SameFrame

namespace Canvas.WellFormed

variable {c : Canvas α}

/-- A change that keeps the frame keeps the invariant. -/
theorem of_sameFrame (h : c.WellFormed) {d : Diagram α} (frame : SameFrame c.diagram d)
    (feed : Option (List (Event α))) :
    ({ c with diagram := d, feed := feed } : Canvas α).WellFormed where
  nodes_ascending := frame.nodes.symm ▸ h.nodes_ascending
  nodes_below := by
    have hall : ∀ id ∈ c.diagram.nodes.map Node.id, id.index < c.nextNode := by
      simpa using h.nodes_below
    rw [← frame.nodes] at hall
    simpa using hall
  edges_ascending := frame.edgeIds.symm ▸ h.edges_ascending
  edges_below e' he' := by
    obtain ⟨e, he, hframe⟩ := frame.exists_edge he'
    have := (Edge.frame_eq_iff.1 hframe).1
    exact this ▸ h.edges_below e he
  ends_exist e' he' id ht := by
    obtain ⟨e, he, hframe⟩ := frame.exists_edge he'
    obtain ⟨-, hs, ho, -⟩ := Edge.frame_eq_iff.1 hframe
    have ht : e.touches id := by simpa [hs, ho] using ht
    exact (frame.isSome_node? id).2 (h.ends_exist e he id ht)
  subject_anchored e' he' := by
    obtain ⟨e, he, hframe⟩ := frame.exists_edge he'
    obtain ⟨-, hs, -, -⟩ := Edge.frame_eq_iff.1 hframe
    exact hs ▸ h.subject_anchored e he
  object_anchored e' he' := by
    obtain ⟨e, he, hframe⟩ := frame.exists_edge he'
    obtain ⟨-, -, ho, hc⟩ := Edge.frame_eq_iff.1 hframe
    exact ho ▸ hc ▸ h.object_anchored e he
  one_incomplete := frame.countP_incomplete ▸ h.one_incomplete
  completing_eq := h.completing_eq.trans frame.any_incomplete.symm
  selected_exists element hs := (frame.isSome_describe? element).2 (h.selected_exists element hs)

/-! ## Elements are told apart -/

theorem nodes_nodup (h : c.WellFormed) : (c.diagram.nodes.map Node.id).Nodup :=
  h.nodes_ascending.imp fun hlt heq => by simp [heq] at hlt

theorem edges_nodup (h : c.WellFormed) : (c.diagram.edges.map Edge.id).Nodup :=
  h.edges_ascending.imp fun hlt heq => by simp [heq] at hlt

/-- The node with an identity is the one that is found under it. -/
theorem eq_of_node? (h : c.WellFormed) {id : NodeId} {m n : Node α} (hm : m ∈ c.diagram.nodes)
    (hid : m.id = id) (found : c.node? id = some n) : m = n := by
  obtain ⟨hn, hnid⟩ := Diagram.mem_of_node? found
  exact List.inj_on_of_nodup_map h.nodes_nodup hm hn (hid.trans hnid.symm)

theorem edge_unique (h : c.WellFormed) {e e' : Edge α} (he : e ∈ c.diagram.edges)
    (he' : e' ∈ c.diagram.edges) (hid : e.id = e'.id) : e = e' :=
  List.inj_on_of_nodup_map h.edges_nodup he he' hid

theorem incomplete_unique (h : c.WellFormed) {e e' : Edge α} (he : e ∈ c.diagram.edges)
    (he' : e' ∈ c.diagram.edges) (hi : e.complete = false) (hi' : e'.complete = false) :
    e = e' := by
  -- both are in a list of at most one element
  have hone := h.one_incomplete
  have hmem : e ∈ c.diagram.edges.filter (!·.complete) := List.mem_filter.2 ⟨he, by simp [hi]⟩
  have hmem' : e' ∈ c.diagram.edges.filter (!·.complete) := List.mem_filter.2 ⟨he', by simp [hi']⟩
  rw [List.countP_eq_length_filter] at hone
  obtain ⟨x, hx⟩ := List.length_eq_one_iff.1
    (Nat.le_antisymm hone (List.length_pos_of_mem hmem))
  rw [hx, List.mem_singleton] at hmem hmem'
  rw [hmem, hmem']

/-- Without the edge `e`, an edge is still being drawn if one was and it is not `e`. -/
theorem any_incomplete_without (h : c.WellFormed) {e : Edge α} (he : e ∈ c.diagram.edges) :
    (e.complete && c.completing) = (c.diagram.edges.filter (·.id ≠ e.id)).any (!·.complete) := by
  rw [h.completing_eq, Bool.eq_iff_iff, Bool.and_eq_true, List.any_eq_true, List.any_eq_true]
  constructor
  -- the incomplete edge is not `e`, which is complete
  · rintro ⟨hc, x, hx, hxc⟩
    refine ⟨x, List.mem_filter.2 ⟨hx, ?_⟩, hxc⟩
    have hne : x.id ≠ e.id := fun hid => by
      rw [h.edge_unique hx he hid, hc] at hxc
      simp at hxc
    simpa using hne
  -- `e` is complete, since another edge is not
  · rintro ⟨x, hx, hxc⟩
    obtain ⟨hx, hne⟩ := List.mem_filter.1 hx
    refine ⟨?_, x, hx, hxc⟩
    by_contra hec
    rw [h.incomplete_unique hx he (by simpa using hxc) (by simpa using hec)] at hne
    simp at hne

/-- An edge starts at a node that exists. -/
theorem start_exists (h : c.WellFormed) {e : Edge α} (he : e ∈ c.diagram.edges) :
    ∃ n, e.subject.node? = some n.id ∧ c.node? n.id = some n := by
  obtain ⟨id, hid⟩ := Option.isSome_iff_exists.1 (h.subject_anchored e he)
  obtain ⟨n, hn⟩ := Option.isSome_iff_exists.1 (h.ends_exist e he id (by simp [hid]))
  obtain ⟨-, rfl⟩ := Diagram.mem_of_node? hn
  exact ⟨n, hid, hn⟩

/-- A complete edge ends at a node that exists. -/
theorem finish_exists (h : c.WellFormed) {e : Edge α} (he : e ∈ c.diagram.edges)
    (hcomplete : e.complete = true) : ∃ n, e.object.node? = some n.id ∧ c.node? n.id = some n := by
  have hanchored : e.object.node?.isSome = true := (h.object_anchored e he).trans hcomplete
  obtain ⟨id, hid⟩ := Option.isSome_iff_exists.1 hanchored
  obtain ⟨n, hn⟩ := Option.isSome_iff_exists.1 (h.ends_exist e he id (by simp [hid]))
  obtain ⟨-, rfl⟩ := Diagram.mem_of_node? hn
  exact ⟨n, hid, hn⟩

/-- The end of an edge that is being drawn can be dragged: it was free before, so no node is
    lost. -/
theorem frame_dragged (h : c.WellFormed) {e : Edge α} (he : e ∈ c.diagram.edges)
    (hincomplete : e.complete = false) (pointer : Point α) :
    ({ e with object := .free pointer } : Edge α).frame = e.frame := by
  have hfree : e.object.node? = none := by simpa [hincomplete] using h.object_anchored e he
  rw [Edge.frame_eq_iff]
  exact ⟨rfl, rfl, hfree.symm, rfl⟩

/-! ## Selection -/

theorem withSelection (h : c.WellFormed) (feed : Option (List (Event α)))
    {selected : Option ElementRef}
    (shown : ∀ element, selected = some element → (c.diagram.describe? element).isSome) :
    ({ c with selected := selected, feed := feed } : Canvas α).WellFormed :=
  { h with selected_exists := shown }

/-! ## New elements -/

theorem appendNode (h : c.WellFormed) (feed : Option (List (Event α))) {n : Node α}
    (hid : n.id = ⟨c.nextNode⟩) {selected : Option ElementRef}
    (kept : selected = c.selected ∨ selected = some (.node n.id)) :
    ({ c with
        diagram := { c.diagram with nodes := c.diagram.nodes ++ [n] }
        nextNode := c.nextNode + 1
        selected := selected
        feed := feed } : Canvas α).WellFormed where
  nodes_ascending := by
    simp only [List.map_append, List.map_cons, List.map_nil]
    refine List.pairwise_append.2 ⟨h.nodes_ascending, List.pairwise_singleton _ _, ?_⟩
    simpa [hid] using h.nodes_below
  nodes_below := by
    refine List.forall_mem_append.2 ⟨fun m hm => ?_, List.forall_mem_singleton.2 ?_⟩
    · exact Nat.lt_succ_of_lt (h.nodes_below m hm)
    · simp [hid]
  edges_ascending := h.edges_ascending
  edges_below := h.edges_below
  ends_exist e he id ht := by
    have hs := h.ends_exist e he id ht
    show (Diagram.node? _ id).isSome
    rw [Diagram.node?_append_of_isSome hs]
    exact hs
  subject_anchored := h.subject_anchored
  object_anchored := h.object_anchored
  one_incomplete := h.one_incomplete
  completing_eq := h.completing_eq
  selected_exists element hs := by
    rcases kept with rfl | rfl
    -- the old selection is still there, and the new one is the new node
    · have hshown := h.selected_exists element hs
      exact Diagram.isSome_describe?_of_subset hshown (by simp) (List.Subset.refl _)
    · obtain rfl : ElementRef.node n.id = element := by simpa using hs
      rw [Diagram.isSome_describe?_node]
      simp

theorem appendEdge (h : c.WellFormed) (feed : Option (List (Event α))) {e : Edge α}
    (hid : e.id = ⟨c.nextEdge⟩) (ends : ∀ id, e.touches id → (c.node? id).isSome)
    (subject : e.subject.node?.isSome) (object : e.object.node?.isSome = e.complete)
    {completing : Bool} (idle : e.complete = false → c.diagram.edges.any (!·.complete) = false)
    (hcompleting : completing = (c.completing || !e.complete)) :
    ({ c with
        diagram := { c.diagram with edges := c.diagram.edges ++ [e] }
        nextEdge := c.nextEdge + 1
        completing := completing
        feed := feed } : Canvas α).WellFormed where
  nodes_ascending := h.nodes_ascending
  nodes_below := h.nodes_below
  edges_ascending := by
    simp only [List.map_append, List.map_cons, List.map_nil]
    refine List.pairwise_append.2 ⟨h.edges_ascending, List.pairwise_singleton _ _, ?_⟩
    simpa [hid] using h.edges_below
  edges_below := by
    refine List.forall_mem_append.2 ⟨fun x hx => ?_, List.forall_mem_singleton.2 ?_⟩
    · exact Nat.lt_succ_of_lt (h.edges_below x hx)
    · simp [hid]
  ends_exist := List.forall_mem_append.2 ⟨h.ends_exist, List.forall_mem_singleton.2 ends⟩
  subject_anchored :=
    List.forall_mem_append.2 ⟨h.subject_anchored, List.forall_mem_singleton.2 subject⟩
  object_anchored :=
    List.forall_mem_append.2 ⟨h.object_anchored, List.forall_mem_singleton.2 object⟩
  one_incomplete := by
    have hone := h.one_incomplete
    cases he : e.complete with
    | true => simpa [he] using hone
    | false =>
      -- an edge is only begun while no other is being drawn
      have hzero : c.diagram.edges.countP (!·.complete) = 0 := by
        rw [List.countP_eq_zero]
        simpa using idle he
      simp [he, hzero]
  completing_eq := by
    simp [hcompleting, h.completing_eq]
  selected_exists element hs := by
    have hshown := h.selected_exists element hs
    exact Diagram.isSome_describe?_of_subset hshown (List.Subset.refl _) (by simp)

/-! ## Removed elements -/

theorem restrict (h : c.WellFormed) (feed : Option (List (Event α))) {nodes : List (Node α)}
    {edges : List (Edge α)} (hnodes : nodes.Sublist c.diagram.nodes)
    (hedges : edges.Sublist c.diagram.edges)
    (closed : ∀ e ∈ edges, ∀ id, e.touches id → id ∈ nodes.map Node.id)
    {completing : Bool} (hcompleting : completing = edges.any (!·.complete))
    {selected : Option ElementRef}
    (shown : ∀ element, selected = some element →
      ((⟨nodes, edges⟩ : Diagram α).describe? element).isSome) :
    ({ c with
        diagram := ⟨nodes, edges⟩
        completing := completing
        selected := selected
        feed := feed } : Canvas α).WellFormed where
  nodes_ascending := h.nodes_ascending.sublist (hnodes.map _)
  nodes_below n hn := h.nodes_below n (hnodes.subset hn)
  edges_ascending := h.edges_ascending.sublist (hedges.map _)
  edges_below e he := h.edges_below e (hedges.subset he)
  ends_exist e he id ht := Diagram.isSome_node?_iff.2 (closed e he id ht)
  subject_anchored e he := h.subject_anchored e (hedges.subset he)
  object_anchored e he := h.object_anchored e (hedges.subset he)
  one_incomplete := Nat.le_trans hedges.countP_le h.one_incomplete
  completing_eq := hcompleting
  selected_exists := shown

/-! ## The end of a drawn edge -/

theorem completeEdge (h : c.WellFormed) (feed : Option (List (Event α))) {e : Edge α}
    (drawn : c.diagram.incompleteEdge? = some e) {finish : Edge α → Edge α}
    (hid : ∀ e, (finish e).id = e.id) (hcomplete : ∀ e, (finish e).complete = true)
    (subject : ∀ e, (finish e).subject.node?.isSome) (object : ∀ e, (finish e).object.node?.isSome)
    (ends : ∀ id, (finish e).touches id → (c.node? id).isSome) :
    ({ c with
        diagram := c.diagram.modifyEdge e.id finish
        completing := false
        feed := feed } : Canvas α).WellFormed := by
  obtain ⟨hmem, hincomplete⟩ := Diagram.mem_of_incompleteEdge? drawn
  -- an edge of the new diagram is the finished one or one that was complete before
  have hcases : ∀ x ∈ (c.diagram.modifyEdge e.id finish).edges,
      x = finish e ∨ x ∈ c.diagram.edges ∧ x.complete = true := by
    intro x hx
    obtain ⟨y, hy, rfl⟩ := List.mem_map.1 hx
    by_cases hye : y.id = e.id
    · rw [if_pos hye, h.edge_unique hy hmem hye]
      exact .inl rfl
    · rw [if_neg hye]
      refine .inr ⟨hy, ?_⟩
      by_contra hyc
      exact hye (congrArg Edge.id (h.incomplete_unique hy hmem (by simpa using hyc) hincomplete))
  -- so no edge is being drawn any more
  have hall : ∀ x ∈ (c.diagram.modifyEdge e.id finish).edges, x.complete = true := by
    intro x hx
    rcases hcases x hx with rfl | ⟨-, hx⟩
    · exact hcomplete e
    · exact hx
  have hids : (c.diagram.modifyEdge e.id finish).edges.map Edge.id
      = c.diagram.edges.map Edge.id := by
    simp only [Diagram.modifyEdge, List.map_map]
    refine List.map_congr_left fun x _ => ?_
    by_cases hx : x.id = e.id <;> simp [hx, hid]
  exact {
    nodes_ascending := h.nodes_ascending
    nodes_below := h.nodes_below
    edges_ascending := hids ▸ h.edges_ascending
    edges_below := fun x hx => by
      rcases hcases x hx with rfl | ⟨hx, -⟩
      · exact hid e ▸ h.edges_below e hmem
      · exact h.edges_below x hx
    ends_exist := fun x hx id ht => by
      rcases hcases x hx with rfl | ⟨hx, -⟩
      · exact ends id ht
      · exact h.ends_exist x hx id ht
    subject_anchored := fun x hx => by
      rcases hcases x hx with rfl | ⟨hx, -⟩
      · exact subject e
      · exact h.subject_anchored x hx
    object_anchored := fun x hx => by
      rcases hcases x hx with rfl | ⟨hx, -⟩
      · rw [object, hcomplete]
      · exact h.object_anchored x hx
    one_incomplete := by
      have hzero : (c.diagram.modifyEdge e.id finish).edges.countP (!·.complete) = 0 := by
        rw [List.countP_eq_zero]
        intro x hx
        simp [hall x hx]
      exact hzero ▸ Nat.zero_le 1
    completing_eq := by
      symm
      rw [List.any_eq_false]
      intro x hx
      simp [hall x hx]
    selected_exists := fun element hs => by
      have hshown := h.selected_exists element hs
      exact Diagram.isSome_describe?_of_subset hshown (List.Subset.refl _)
        (hids ▸ List.Subset.refl _) }

/-! ## Runs -/

theorem new (sizes : ShapeSizes α) : (Canvas.new sizes).WellFormed where
  nodes_ascending := .nil
  nodes_below := by simp [Canvas.new, Diagram.empty]
  edges_ascending := .nil
  edges_below := by simp [Canvas.new, Diagram.empty]
  ends_exist := by simp [Canvas.new, Diagram.empty]
  subject_anchored := by simp [Canvas.new, Diagram.empty]
  object_anchored := by simp [Canvas.new, Diagram.empty]
  one_incomplete := Nat.zero_le 1
  completing_eq := rfl
  selected_exists := by simp [Canvas.new]

variable [Scalar α]

/-- Every step keeps the invariant. -/
theorem step {c c' : Canvas α} {operation : Operation α} (h : c.WellFormed)
    (hstep : Step c operation c') : c'.WellFormed := by
  induction hstep with
  | quiet _ feed => exact h.of_sameFrame (.refl _) feed
  | createNode position kind content selected feed kept => exact h.appendNode feed rfl kept
  | updateNode content feed found =>
    refine h.of_sameFrame ?_ feed
    exact .modifyNode_reanchor _ _ fun _ => rfl
  | assignNode kind content inferredClass feed found =>
    refine h.of_sameFrame ?_ feed
    exact .modifyNode_reanchor _ _ fun _ => rfl
  | inferClass label merged feed found inferable =>
    refine h.of_sameFrame ?_ feed
    exact .modifyNode _ _ fun _ => rfl
  | setClass inferredClass feed found =>
    refine h.of_sameFrame ?_ feed
    exact .modifyNode _ _ fun _ => rfl
  | moveNode position feed found =>
    refine h.of_sameFrame ?_ feed
    exact .modifyNode_reanchor _ _ fun _ => rfl
  | @deleteNode id n selected feed found kept =>
    refine h.restrict feed List.filter_sublist List.filter_sublist ?_ rfl ?_
    -- the remaining edges end at other nodes
    · intro e he i ht
      obtain ⟨hmem, hnot⟩ := List.mem_filter.1 he
      have hi : i ≠ id := fun hi => by simp [hi ▸ ht] at hnot
      exact Diagram.mem_ids_filter hi (Diagram.isSome_node?_iff.1 (h.ends_exist e hmem i ht))
    -- a selection that was kept names something that remains
    · rintro element rfl
      rcases kept with hnone | ⟨hsame, hnode, hedge⟩
      · simp at hnone
      have hshown := h.selected_exists element hsame.symm
      cases element with
      | node i =>
        rw [Diagram.isSome_describe?_node] at hshown ⊢
        exact Diagram.mem_ids_filter (fun hi => hnode (by rw [← hsame, hi])) hshown
      | edge i =>
        rw [Diagram.isSome_describe?_edge] at hshown ⊢
        obtain ⟨e, he, rfl⟩ := List.mem_map.1 hshown
        refine List.mem_map_of_mem (List.mem_filter.2 ⟨he, ?_⟩)
        by_contra ht
        exact hedge e he (by simpa using ht) hsame.symm
  | @startEdge id n content feed found idle =>
    obtain ⟨hmem, rfl⟩ := Diagram.mem_of_node? found
    have hidle : c.diagram.edges.any (!·.complete) = false := by
      simpa [Diagram.incompleteEdge?] using idle
    refine h.appendEdge feed rfl ?_ rfl rfl (fun _ => hidle) ?_
    · intro i ht
      obtain rfl : n.id = i := by simpa [drawnEdge, Endpoint.node?] using ht
      simp [found]
    · simp [drawnEdge]
  | @followPointer e pointer feed drawn =>
    obtain ⟨hmem, hincomplete⟩ := Diagram.mem_of_incompleteEdge? drawn
    refine h.of_sameFrame ?_ feed
    refine .modifyEdge _ _ fun x hx hid => ?_
    obtain rfl := h.edge_unique hx hmem hid
    exact h.frame_dragged hx hincomplete pointer
  | @completeEdge e subject object ends feed drawn starts subjectFound objectFound crossed =>
    refine h.completeEdge feed drawn (fun _ => rfl) (fun _ => rfl) (fun _ => rfl) (fun _ => rfl) ?_
    intro id ht
    rcases Edge.eq_or_eq_of_touches rfl rfl ht with rfl | rfl
    · simp [subjectFound]
    · simp [objectFound]
  | @connect subject object content feed subjectFound objectFound =>
    refine h.appendEdge feed rfl ?_ rfl rfl (fun hno => by simp [joiningEdge] at hno) ?_
    · intro id ht
      rcases Edge.eq_or_eq_of_touches rfl rfl ht with rfl | rfl
      · simp [subjectFound]
      · simp [objectFound]
    · simp [joiningEdge]
  | updateEdge content feed found =>
    refine h.of_sameFrame ?_ feed
    exact .modifyEdge _ _ fun _ _ _ => rfl
  | setOptional value feed found =>
    refine h.of_sameFrame ?_ feed
    exact .mark _ _ _ _
  | @deleteEdge id e selected feed found kept =>
    obtain ⟨hmem, rfl⟩ := Diagram.mem_of_edge? found
    refine h.restrict feed (.refl _) List.filter_sublist ?_ ?_ ?_
    · intro x hx i ht
      exact Diagram.isSome_node?_iff.1 (h.ends_exist x (List.mem_of_mem_filter hx) i ht)
    · exact h.any_incomplete_without hmem
    -- a selection that was kept is not the removed edge
    · rintro element rfl
      rcases kept with hnone | ⟨hsame, hedge⟩
      · simp at hnone
      have hshown := h.selected_exists element hsame.symm
      cases element with
      | node i => exact hshown
      | edge i =>
        rw [Diagram.isSome_describe?_edge] at hshown ⊢
        obtain ⟨x, hx, rfl⟩ := List.mem_map.1 hshown
        refine List.mem_map_of_mem (List.mem_filter.2 ⟨hx, ?_⟩)
        have : x.id ≠ e.id := fun hid => hedge (by rw [← hsame, hid])
        simpa using this
  | clear feed =>
    refine h.restrict feed (List.nil_sublist _) (List.nil_sublist _) ?_ rfl ?_
    · simp
    · simp
  | @select element feed shown =>
    refine h.withSelection feed ?_
    rintro _ ⟨rfl⟩
    exact shown
  | clearSelection feed => exact h.withSelection feed fun element hs => by simp at hs
  | setMode mode => exact { h with }
  | click _ ih => exact ih

/-- A list of operations keeps the invariant, whatever the operations are. -/
theorem run {c : Canvas α} (h : c.WellFormed) (operations : List (Operation α)) :
    (c.run operations).WellFormed := by
  refine List.foldlRecOn (motive := WellFormed) operations _ h ?_
  intro c' hc' operation _
  exact hc'.step (step_perform c' operation)

end Canvas.WellFormed

namespace Canvas

/-- The structural invariant holds of every reachable canvas. -/
theorem Reachable.wellFormed [Scalar α] {allowed : Operation α → Prop} {sizes : ShapeSizes α}
    {c : Canvas α} (reached : Reachable allowed sizes c) : c.WellFormed :=
  reached.induct (.new sizes) (fun _ feed h => h.of_sameFrame (.refl _) feed)
    fun _ _ _ _ h _ hstep => h.step hstep

/-! ## The check -/

theorem danglingEnd?_eq_none {c : Canvas α} (h : c.WellFormed) :
    danglingEnd? c.diagram = none := by
  rw [danglingEnd?, List.findSome?_eq_none_iff]
  intro e he
  rw [List.findSome?_eq_none_iff]
  intro id hid
  have hsome := h.ends_exist e he id (by simpa using hid)
  rw [node?] at hsome
  simp [Option.isSome_iff_ne_none.1 hsome]

/-- The check of a canvas with the invariant succeeds. -/
theorem WellFormed.validate_eq {c : Canvas α} (h : c.WellFormed) : c.validate = .ok () := by
  have hone := h.one_incomplete
  rw [List.countP_eq_length_filter] at hone
  simp only [validate, danglingEnd?_eq_none h]
  rw [if_neg (by omega)]

end Canvas

end QueryCanvas
