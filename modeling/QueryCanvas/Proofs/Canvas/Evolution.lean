/-
  QueryCanvas.Proofs.Canvas.Evolution

  What becomes of the elements of a canvas in the course of time.

  `Evolves` compares a canvas with one that it has become. No counter goes back,
  every element was there before or has an identity that was still to be handed
  out, and an edge that was there before has moved on at most: from being drawn
  to being complete, and never to another node. One step after the other leads
  to any later canvas (`Later.evolves`).

  Identities ascend in the order of the elements, so that order is a matter of
  identities alone (`filter_comm_of_ascending`).
-/

import QueryCanvas.Proofs.Canvas.Placement

namespace QueryCanvas

variable {α : Type}

/-! ## Elements -/

namespace ElementRef

def index : ElementRef → Nat
  | node id => id.index
  | edge id => id.index

/-- Two nodes, or two edges. -/
def SameKind : ElementRef → ElementRef → Prop
  | node _, node _ | edge _, edge _ => True
  | _, _ => False

/-- The order in which elements are listed: nodes before edges, and elements of a kind in the order
    of their identities. -/
def Precedes : ElementRef → ElementRef → Prop
  | node a, node b => a.index < b.index
  | edge a, edge b => a.index < b.index
  | node _, edge _ => True
  | edge _, node _ => False

theorem Precedes.asymm {a b : ElementRef} (h : a.Precedes b) : ¬ b.Precedes a := by
  cases a with
  | node a =>
    cases b with
    | node b => exact Nat.lt_asymm h
    | edge b => exact id
  | edge a =>
    cases b with
    | node b => exact h.elim
    | edge b => exact Nat.lt_asymm h

end ElementRef

/-- Lists that ascend have what they share in the same order. -/
theorem filter_comm_of_ascending {ι : Type} [DecidableEq ι] {before : ι → ι → Prop}
    (asymm : ∀ a b, before a b → ¬ before b a) {l m : List ι} (hl : l.Pairwise before)
    (hm : m.Pairwise before) : l.filter (· ∈ m) = m.filter (· ∈ l) := by
  have hne : ∀ {a b}, before a b → a ≠ b := by
    rintro a b h rfl
    exact asymm a a h h
  have hperm : (l.filter (· ∈ m)).Perm (m.filter (· ∈ l)) := by
    refine (List.perm_ext_iff_of_nodup ((hl.filter _).imp hne) ((hm.filter _).imp hne)).2 ?_
    intro a
    simp [and_comm]
  refine hperm.eq_of_pairwise (fun a b _ _ hab hba => ?_) (hl.filter _) (hm.filter _)
  exact absurd hba (asymm a b hab)

/-- An edge at a later time. -/
structure Edge.Continues (e e' : Edge α) : Prop where
  id : e'.id = e.id
  subject : e'.subject.node? = e.subject.node?
  complete : e.complete = true → e'.complete = true
  object : e.complete = true → e'.object.node? = e.object.node?

namespace Edge.Continues

theorem of_frame {e e' : Edge α} (h : e'.frame = e.frame) : e.Continues e' := by
  obtain ⟨hid, hs, ho, hc⟩ := Edge.frame_eq_iff.1 h
  exact ⟨hid, hs, fun hcomplete => hc.trans hcomplete, fun _ => ho⟩

theorem refl (e : Edge α) : e.Continues e := of_frame rfl

theorem trans {a b c : Edge α} (hab : a.Continues b) (hbc : b.Continues c) : a.Continues c where
  id := hbc.id.trans hab.id
  subject := hbc.subject.trans hab.subject
  complete h := hbc.complete (hab.complete h)
  object h := (hbc.object (hab.complete h)).trans (hab.object h)

/-- As long as an edge is being drawn, only its identity and its subject are settled. -/
theorem of_incomplete {e e' : Edge α} (drawn : e.complete = false) (id : e'.id = e.id)
    (subject : e'.subject.node? = e.subject.node?) : e.Continues e' := by
  refine ⟨id, subject, fun h => ?_, fun h => ?_⟩
  · rw [drawn] at h
    cases h
  · rw [drawn] at h
    cases h

end Edge.Continues

namespace Canvas

/-- The elements of a canvas, nodes first. -/
def elements (c : Canvas α) : List ElementRef :=
  c.diagram.nodes.map (.node ·.id) ++ c.diagram.edges.map (.edge ·.id)

/-- The identity of an element is still to be handed out. -/
def Unissued (c : Canvas α) : ElementRef → Prop
  | .node id => c.nextNode ≤ id.index
  | .edge id => c.nextEdge ≤ id.index

variable {c d : Canvas α}

@[simp] theorem mem_elements_node {id : NodeId} :
    .node id ∈ c.elements ↔ ∃ n ∈ c.diagram.nodes, n.id = id := by
  simp [elements]

@[simp] theorem mem_elements_edge {id : EdgeId} :
    .edge id ∈ c.elements ↔ ∃ e ∈ c.diagram.edges, e.id = id := by
  simp [elements]

namespace WellFormed

theorem elements_ascending (h : c.WellFormed) : c.elements.Pairwise ElementRef.Precedes := by
  have hnodes := List.pairwise_map.1 h.nodes_ascending
  have hedges := List.pairwise_map.1 h.edges_ascending
  refine List.pairwise_append.2 ⟨List.pairwise_map.2 hnodes, List.pairwise_map.2 hedges, ?_⟩
  intro x hx y hy
  obtain ⟨n, -, rfl⟩ := List.mem_map.1 hx
  obtain ⟨e, -, rfl⟩ := List.mem_map.1 hy
  trivial

/-- What is on the canvas has an identity that was handed out. -/
theorem not_unissued (h : c.WellFormed) {element : ElementRef} (present : element ∈ c.elements) :
    ¬ c.Unissued element := by
  cases element with
  | node id =>
    obtain ⟨n, hn, rfl⟩ := mem_elements_node.1 present
    have hbelow := h.nodes_below n hn
    exact Nat.not_le_of_lt hbelow
  | edge id =>
    obtain ⟨e, he, rfl⟩ := mem_elements_edge.1 present
    have hbelow := h.edges_below e he
    exact Nat.not_le_of_lt hbelow

/-- An identity that is still to be handed out is larger than all on the canvas. -/
theorem index_lt_of_unissued (h : c.WellFormed) {old element : ElementRef}
    (present : old ∈ c.elements) (unissued : c.Unissued element) (alike : old.SameKind element) :
    old.index < element.index := by
  have hissued := h.not_unissued present
  cases old with
  | node a =>
    cases element with
    | node b => exact Nat.lt_of_lt_of_le (Nat.lt_of_not_le hissued) unissued
    | edge b => cases alike
  | edge a =>
    cases element with
    | node b => cases alike
    | edge b => exact Nat.lt_of_lt_of_le (Nat.lt_of_not_le hissued) unissued

end WellFormed

/-! ## Two moments -/

/-- A canvas and one that it has become. -/
structure Evolves (c d : Canvas α) : Prop where
  nextNode_le : c.nextNode ≤ d.nextNode
  nextEdge_le : c.nextEdge ≤ d.nextEdge
  node_known : ∀ n' ∈ d.diagram.nodes, .node n'.id ∈ c.elements ∨ c.Unissued (.node n'.id)
  edge_known : ∀ e' ∈ d.diagram.edges,
    (∃ e ∈ c.diagram.edges, e.Continues e') ∨ c.Unissued (.edge e'.id)

namespace Evolves

/-- Elements were there before or have been handed out since. -/
theorem known (h : Evolves c d) {element : ElementRef} (present : element ∈ d.elements) :
    element ∈ c.elements ∨ c.Unissued element := by
  cases element with
  | node id =>
    obtain ⟨n, hn, rfl⟩ := mem_elements_node.1 present
    exact h.node_known n hn
  | edge id =>
    obtain ⟨e', he', rfl⟩ := mem_elements_edge.1 present
    refine (h.edge_known e' he').imp_left ?_
    rintro ⟨e, he, hcontinues⟩
    exact mem_elements_edge.2 ⟨e, he, hcontinues.id.symm⟩

theorem unissued (h : Evolves c d) {element : ElementRef} (later : d.Unissued element) :
    c.Unissued element := by
  cases element with
  | node id => exact Nat.le_trans h.nextNode_le later
  | edge id => exact Nat.le_trans h.nextEdge_le later

/-- An edge that is on the canvas at two moments has moved on. -/
theorem continues (evolves : Evolves c d) (wf : c.WellFormed) {e e' : Edge α}
    (he : e ∈ c.diagram.edges) (he' : e' ∈ d.diagram.edges) (hid : e'.id = e.id) :
    e.Continues e' := by
  have hpresent : .edge e.id ∈ c.elements := mem_elements_edge.2 ⟨e, he, rfl⟩
  rcases evolves.edge_known e' he' with ⟨x, hx, hcontinues⟩ | hnew
  · -- identities are unique, so this is the edge that `e'` goes back to
    have hsame : x.id = e.id := hcontinues.id.symm.trans hid
    rwa [wf.edge_unique hx he hsame] at hcontinues
  · exact absurd (hid ▸ hnew) (wf.not_unissued hpresent)

theorem refl (c : Canvas α) : Evolves c c where
  nextNode_le := Nat.le_refl _
  nextEdge_le := Nat.le_refl _
  node_known n hn := .inl (mem_elements_node.2 ⟨n, hn, rfl⟩)
  edge_known e he := .inl ⟨e, he, .refl e⟩

theorem trans {e : Canvas α} (hcd : Evolves c d) (hde : Evolves d e) : Evolves c e where
  nextNode_le := Nat.le_trans hcd.nextNode_le hde.nextNode_le
  nextEdge_le := Nat.le_trans hcd.nextEdge_le hde.nextEdge_le
  node_known n hn := by
    rcases hde.node_known n hn with hmem | hnew
    · exact hcd.known hmem
    · exact .inr (hcd.unissued hnew)
  edge_known x hx := by
    rcases hde.edge_known x hx with ⟨y, hy, hyx⟩ | hnew
    · rcases hcd.edge_known y hy with ⟨z, hz, hzy⟩ | hnew
      · exact .inl ⟨z, hz, hzy.trans hyx⟩
      · -- it came in between and kept its identity
        exact .inr (hyx.id ▸ hnew)
    · exact .inr (hcd.unissued hnew)

/-- Nothing is added, and the edges that are left continue edges of before. -/
theorem of_kept (nextNode : d.nextNode = c.nextNode) (nextEdge : d.nextEdge = c.nextEdge)
    (nodes : ∀ n' ∈ d.diagram.nodes, ∃ n ∈ c.diagram.nodes, n.id = n'.id)
    (edges : ∀ e' ∈ d.diagram.edges, ∃ e ∈ c.diagram.edges, e.Continues e') :
    Evolves c d where
  nextNode_le := Nat.le_of_eq nextNode.symm
  nextEdge_le := Nat.le_of_eq nextEdge.symm
  node_known n hn := .inl (mem_elements_node.2 (nodes n hn))
  edge_known e he := .inl (edges e he)

/-- A change that keeps the frame keeps all elements. -/
theorem of_sameFrame (nextNode : d.nextNode = c.nextNode) (nextEdge : d.nextEdge = c.nextEdge)
    (frame : SameFrame c.diagram d.diagram) : Evolves c d := by
  refine of_kept nextNode nextEdge (fun n hn => ?_) fun e' he' => ?_
  · have hmem : n.id ∈ c.diagram.nodes.map Node.id := frame.nodes ▸ List.mem_map_of_mem hn
    exact List.mem_map.1 hmem
  · obtain ⟨e, he, hframe⟩ := frame.exists_edge he'
    exact ⟨e, he, .of_frame hframe.symm⟩

/-- One edge changes, if it is still being drawn. -/
theorem changeDrawn (wf : c.WellFormed) (nextNode : d.nextNode = c.nextNode)
    (nextEdge : d.nextEdge = c.nextEdge) {e : Edge α}
    (drawn : c.diagram.incompleteEdge? = some e) {f : Edge α → Edge α} (id : (f e).id = e.id)
    (subject : (f e).subject.node? = e.subject.node?)
    (changed : d.diagram = c.diagram.modifyEdge e.id f) : Evolves c d := by
  obtain ⟨hmem, hincomplete⟩ := Diagram.mem_of_incompleteEdge? drawn
  refine of_kept nextNode nextEdge (fun n hn => ?_) fun x hx => ?_
  · rw [changed] at hn
    exact ⟨n, hn, rfl⟩
  · rw [changed] at hx
    obtain ⟨y, hy, rfl⟩ := List.mem_map.1 hx
    refine ⟨y, hy, ?_⟩
    split
    · next hid =>
      obtain rfl := wf.edge_unique hy hmem hid
      exact .of_incomplete hincomplete id subject
    · exact .refl y

/-- An edge is added under the next identity. -/
theorem appendEdge {e : Edge α} (id : e.id = ⟨c.nextEdge⟩) (nextNode : d.nextNode = c.nextNode)
    (nextEdge : d.nextEdge = c.nextEdge + 1)
    (added : d.diagram = { c.diagram with edges := c.diagram.edges ++ [e] }) : Evolves c d where
  nextNode_le := Nat.le_of_eq nextNode.symm
  nextEdge_le := Nat.le_of_succ_le (Nat.le_of_eq nextEdge.symm)
  node_known n hn := by
    rw [added] at hn
    exact .inl (mem_elements_node.2 ⟨n, hn, rfl⟩)
  edge_known x hx := by
    rw [added] at hx
    rcases List.mem_append.1 hx with hx | hx
    · exact .inl ⟨x, hx, .refl x⟩
    · obtain rfl := List.mem_singleton.1 hx
      rw [id]
      exact .inr (Nat.le_refl c.nextEdge)

variable [Scalar α] {operation : Operation α}

/-- One step. -/
theorem step (wf : c.WellFormed) (hstep : Step c operation d) : Evolves c d := by
  induction hstep with
  | quiet _ feed => exact .of_sameFrame rfl rfl (.refl _)
  | createNode position kind content selected feed kept =>
    -- a node was there before, or it has the number of the counter
    refine ⟨Nat.le_succ _, Nat.le_refl _, fun n hn => ?_, fun e he => .inl ⟨e, he, .refl e⟩⟩
    rcases List.mem_append.1 hn with hn | hn
    · exact .inl (mem_elements_node.2 ⟨n, hn, rfl⟩)
    · obtain rfl := List.mem_singleton.1 hn
      exact .inr (Nat.le_refl c.nextNode)
  | updateNode content feed found =>
    exact .of_sameFrame rfl rfl (.modifyNode_reanchor _ _ fun _ => rfl)
  | assignNode kind content inferredClass feed found =>
    exact .of_sameFrame rfl rfl (.modifyNode_reanchor _ _ fun _ => rfl)
  | inferClass label merged feed found inferable =>
    exact .of_sameFrame rfl rfl (.modifyNode _ _ fun _ => rfl)
  | setClass inferredClass feed found =>
    exact .of_sameFrame rfl rfl (.modifyNode _ _ fun _ => rfl)
  | moveNode position feed found =>
    exact .of_sameFrame rfl rfl (.modifyNode_reanchor _ _ fun _ => rfl)
  | deleteNode selected feed found kept =>
    refine .of_kept rfl rfl (fun n hn => ⟨n, List.mem_of_mem_filter hn, rfl⟩) fun e he => ?_
    exact ⟨e, List.mem_of_mem_filter he, .refl e⟩
  | startEdge content feed found idle => exact .appendEdge rfl rfl rfl rfl
  | @followPointer e pointer feed drawn =>
    refine .changeDrawn wf rfl rfl drawn ?_ ?_ rfl
    · rfl
    · rfl
  | @completeEdge e subject object ends feed drawn starts subjectFound objectFound crossed =>
    refine .changeDrawn wf rfl rfl drawn ?_ ?_ rfl
    · rfl
    · exact starts.symm
  | connect content feed subjectFound objectFound => exact .appendEdge rfl rfl rfl rfl
  | updateEdge content feed found =>
    exact .of_sameFrame rfl rfl (.modifyEdge _ _ fun _ _ _ => rfl)
  | setOptional value feed found => exact .of_sameFrame rfl rfl (.mark _ _ _ _)
  | deleteEdge selected feed found kept =>
    refine .of_kept rfl rfl (fun n hn => ⟨n, hn, rfl⟩) fun e he => ?_
    exact ⟨e, List.mem_of_mem_filter he, .refl e⟩
  | clear feed => exact .of_kept rfl rfl (fun n hn => by cases hn) fun e he => by cases he
  | select feed shown => exact .of_sameFrame rfl rfl (.refl _)
  | clearSelection feed => exact .of_sameFrame rfl rfl (.refl _)
  | setMode mode => exact .of_sameFrame rfl rfl (.refl _)
  | click _ ih => exact ih

end Evolves

variable [Scalar α]

theorem evolves_perform (wf : c.WellFormed) (operation : Operation α) :
    Evolves c (c.perform operation).1 :=
  .step wf (step_perform c operation)

/-! ## Later canvases -/

/-- The canvases that a canvas can become. -/
inductive Later (c : Canvas α) : Canvas α → Prop
  | now : Later c c
  | perform {d : Canvas α} (before : Later c d) (operation : Operation α) :
      Later c (d.perform operation).1
  | subscribe {d : Canvas α} (before : Later c d) : Later c d.subscribe
  | takeEvents {d : Canvas α} (before : Later c d) : Later c d.takeEvents.2

namespace Later

theorem wellFormed (later : Later c d) (wf : c.WellFormed) : d.WellFormed := by
  induction later with
  | now => exact wf
  | perform before operation ih => exact ih.step (step_perform _ operation)
  | subscribe before ih => exact ih.of_sameFrame (.refl _) _
  | takeEvents before ih => exact ih.of_sameFrame (.refl _) _

theorem evolves (later : Later c d) (wf : c.WellFormed) : Evolves c d := by
  induction later with
  | now => exact .refl c
  | perform before operation ih =>
    exact ih.trans (evolves_perform (before.wellFormed wf) operation)
  | subscribe before ih => exact ih.trans (.of_sameFrame rfl rfl (.refl _))
  | takeEvents before ih => exact ih.trans (.of_sameFrame rfl rfl (.refl _))

end Later

/-! ## The mode -/

omit [Scalar α] in
theorem clickOperation_ne_setMode (c : Canvas α) (position : Point α) (hit : Option NodeId)
    (mode : Mode) : c.clickOperation position hit ≠ .setMode mode := by
  unfold clickOperation
  split
  · simp
  · simp
  · simp
  · split <;> simp
  · simp
  · simp

/-- The mode is what it was, unless it was switched. -/
theorem mode_step {operation : Operation α} (hstep : Step c operation d) :
    d.mode = c.mode ∨ operation = .setMode d.mode := by
  induction hstep with
  | setMode mode => exact .inr rfl
  | click performed ih =>
    -- a click performs other operations, but does not switch the mode
    refine .inl (ih.resolve_right ?_)
    exact c.clickOperation_ne_setMode _ _ _
  | _ => exact .inl rfl

end Canvas

end QueryCanvas
