/-
  QueryCanvas.Proofs.Canvas.Optionality

  When edges and the nodes at their ends are optional together.

  Marking an edge marks the nodes at its ends too, but neither the other edges
  at these nodes nor the nodes behind them. And an edge that is connected or
  drawn to its object does not look at the marks of the nodes that it joins.

  `shares_optionality_throughout_iff` says that edges and nodes come apart in
  these ways only. All other steps keep the marks of what they leave on the
  canvas, and add nothing at a node that is marked (`shares_step`).
-/

import QueryCanvas.Proofs.Log
import QueryCanvas.Proofs.Canvas.Layout
import QueryCanvas.Proofs.Canvas.Placement

namespace QueryCanvas

variable {α : Type}

/-! ## Shared marks -/

/-- Complete edges are optional together with the nodes at their ends. -/
def Diagram.SharesOptionality (d : Diagram α) : Prop :=
  ∀ e ∈ d.edges, e.complete = true →
    ∀ n ∈ d.nodes, e.touches n.id = true → n.isOptional = e.isOptional

instance (d : Diagram α) : Decidable d.SharesOptionality :=
  inferInstanceAs (Decidable (∀ e ∈ d.edges, e.complete = true →
    ∀ n ∈ d.nodes, e.touches n.id = true → n.isOptional = e.isOptional))

namespace Diagram.SharesOptionality

variable {d d' : Diagram α}

/-- Nodes and edges may go, and whatever is no mark of theirs may change. -/
theorem of_kept (h : d.SharesOptionality)
    (nodes : ∀ n' ∈ d'.nodes, ∃ n ∈ d.nodes, n.id = n'.id ∧ n.isOptional = n'.isOptional)
    (edges : ∀ e' ∈ d'.edges, e'.complete = true →
      ∃ e ∈ d.edges, e.frame = e'.frame ∧ e.isOptional = e'.isOptional) :
    d'.SharesOptionality := by
  intro e' he' hcomplete n' hn' htouches
  obtain ⟨n, hn, hid, hnode⟩ := nodes n' hn'
  obtain ⟨e, he, hframe, hedge⟩ := edges e' he' hcomplete
  obtain ⟨-, hs, ho, hc⟩ := Edge.frame_eq_iff.1 hframe
  have ht : e.touches n.id = true := by
    rw [Edge.touches_iff, hs, ho, hid]
    exact Edge.touches_iff.1 htouches
  rw [← hnode, ← hedge]
  exact h e he (hc.trans hcomplete) n hn ht

theorem modifyNode (h : d.SharesOptionality) (id : NodeId) {f : Node α → Node α}
    (keeps : ∀ n, (f n).id = n.id ∧ (f n).isOptional = n.isOptional) :
    (d.modifyNode id f).SharesOptionality := by
  refine h.of_kept (fun n' hn' => ?_) fun e he _ => ⟨e, he, rfl, rfl⟩
  obtain ⟨n, hn, rfl⟩ := List.mem_map.1 hn'
  refine ⟨n, hn, ?_⟩
  split
  · exact ⟨(keeps n).1.symm, (keeps n).2.symm⟩
  · exact ⟨rfl, rfl⟩

theorem modifyEdge (h : d.SharesOptionality) (id : EdgeId) {f : Edge α → Edge α}
    (keeps : ∀ e ∈ d.edges, e.id = id → (f e).complete = true →
      (f e).frame = e.frame ∧ (f e).isOptional = e.isOptional) :
    (d.modifyEdge id f).SharesOptionality := by
  refine h.of_kept (fun n hn => ⟨n, hn, rfl, rfl⟩) fun e' he' hcomplete => ?_
  obtain ⟨e, he, rfl⟩ := List.mem_map.1 he'
  refine ⟨e, he, ?_⟩
  split
  · next hid =>
    rw [if_pos hid] at hcomplete
    obtain ⟨hframe, hedge⟩ := keeps e he hid hcomplete
    exact ⟨hframe.symm, hedge.symm⟩
  · exact ⟨rfl, rfl⟩

theorem reanchor [Scalar α] (h : d.SharesOptionality) (id : NodeId) :
    (d.reanchor id).SharesOptionality := by
  refine h.of_kept (fun n hn => ⟨n, hn, rfl, rfl⟩) fun e' he' _ => ?_
  obtain ⟨e, he, rfl⟩ := List.mem_map.1 he'
  obtain ⟨s, o, hends⟩ := (d.reanchoredEdge_follows id e).ends
  exact ⟨e, he, (d.frame_reanchoredEdge id e).symm, by rw [hends]⟩

theorem modifyNode_reanchor [Scalar α] (h : d.SharesOptionality) (id : NodeId)
    {f : Node α → Node α} (keeps : ∀ n, (f n).id = n.id ∧ (f n).isOptional = n.isOptional) :
    ((d.modifyNode id f).reanchor id).SharesOptionality :=
  (h.modifyNode id keeps).reanchor id

theorem restrict (h : d.SharesOptionality) (nodes : d'.nodes ⊆ d.nodes)
    (edges : d'.edges ⊆ d.edges) : d'.SharesOptionality :=
  h.of_kept (fun n hn => ⟨n, nodes hn, rfl, rfl⟩) fun e he _ => ⟨e, edges he, rfl, rfl⟩

theorem appendNode (h : d.SharesOptionality) {n : Node α}
    (apart : ∀ e ∈ d.edges, e.touches n.id = false) :
    ({ d with nodes := d.nodes ++ [n] } : Diagram α).SharesOptionality := by
  intro e he hcomplete m hm htouches
  rcases List.mem_append.1 hm with hm | hm
  · exact h e he hcomplete m hm htouches
  · obtain rfl := List.mem_singleton.1 hm
    rw [apart e he] at htouches
    cases htouches

theorem appendEdge (h : d.SharesOptionality) {e : Edge α}
    (shared : e.complete = true → ∀ n ∈ d.nodes, e.touches n.id = true →
      n.isOptional = e.isOptional) :
    ({ d with edges := d.edges ++ [e] } : Diagram α).SharesOptionality := by
  intro x hx
  rcases List.mem_append.1 hx with hx | hx
  · exact h x hx
  · obtain rfl := List.mem_singleton.1 hx
    exact shared

/-- An edge is completed between nodes that are marked like itself. -/
theorem complete {c : Canvas α} (h : c.diagram.SharesOptionality) (wf : c.WellFormed) {e : Edge α}
    {subject object : Node α} {ends : Point α × Point α}
    (drawn : c.diagram.incompleteEdge? = some e) (subjectFound : c.node? subject.id = some subject)
    (objectFound : c.node? object.id = some object) (hs : subject.isOptional = e.isOptional)
    (ho : object.isOptional = e.isOptional) :
    (c.diagram.modifyEdge e.id fun e =>
      { e with
        subject := .anchored subject.id ends.1
        object := .anchored object.id ends.2
        complete := true }).SharesOptionality := by
  obtain ⟨hmem, -⟩ := Diagram.mem_of_incompleteEdge? drawn
  intro x hx hcomplete n hn htouches
  obtain ⟨y, hy, rfl⟩ := List.mem_map.1 hx
  by_cases hid : y.id = e.id
  · obtain rfl := wf.edge_unique hy hmem hid
    rw [if_pos rfl] at htouches ⊢
    rcases Edge.eq_or_eq_of_touches rfl rfl htouches with hnode | hnode
    · rw [wf.eq_of_node? hn hnode subjectFound]
      exact hs
    · rw [wf.eq_of_node? hn hnode objectFound]
      exact ho
  · rw [if_neg hid] at hcomplete htouches ⊢
    exact h y hy hcomplete n hn htouches

/-- An edge is marked together with the nodes at its ends, where the other edges at these nodes are
    marked alike already. -/
theorem mark {c : Canvas α} (h : c.diagram.SharesOptionality) (wf : c.WellFormed) {id : EdgeId}
    {e : Edge α} {value : Bool} (found : c.edge? id = some e)
    (alike : ∀ other ∈ c.diagram.edges, other.complete = true → other.id ≠ id →
      ∀ node, e.touches node = true → other.touches node = true → other.isOptional = value) :
    ({ c.diagram.modifyEdge id fun e => { e with isOptional := value } with
        nodes := c.diagram.nodes.map fun n =>
          if e.nodes.contains n.id then { n with isOptional := value } else n } :
      Diagram α).SharesOptionality := by
  obtain ⟨hmem, rfl⟩ := Diagram.mem_of_edge? found
  intro x hx hcomplete n hn htouches
  obtain ⟨y, hy, rfl⟩ := List.mem_map.1 hx
  obtain ⟨m, hm, rfl⟩ := List.mem_map.1 hn
  have hmarked : e.nodes.contains m.id = true ↔ e.touches m.id = true :=
    List.contains_iff_mem.trans Edge.mem_nodes_iff
  have hnode : (if e.nodes.contains m.id then { m with isOptional := value } else m).id = m.id := by
    split <;> rfl
  rw [hnode] at htouches
  by_cases hid : y.id = e.id
  · obtain rfl := wf.edge_unique hy hmem hid
    rw [if_pos rfl] at htouches
    rw [if_pos rfl, if_pos (hmarked.2 htouches)]
  · rw [if_neg hid] at hcomplete htouches ⊢
    by_cases hat : e.touches m.id = true
    · rw [if_pos (hmarked.2 hat)]
      exact (alike y hy hcomplete hid m.id hat htouches).symm
    · rw [if_neg (mt hmarked.1 hat)]
      exact h y hy hcomplete m hm htouches

end Diagram.SharesOptionality

namespace Canvas

variable [Scalar α] {c c' : Canvas α} {operation : Operation α}

/-! ## What splits marks -/

/-- The operations after which a complete edge and a node at its end are not optional together. -/
inductive Splits (c : Canvas α) : Operation α → Prop
  /-- An edge is connected to an optional node. -/
  | connect {subject object : Node α} (content : String)
      (subjectFound : c.node? subject.id = some subject)
      (objectFound : c.node? object.id = some object)
      (differs : subject.isOptional = true ∨ object.isOptional = true) :
      Splits c (.connect subject.id object.id content)
  /-- An edge is completed between nodes that are not marked like itself. -/
  | completeEdge {e : Edge α} {subject object : Node α} {ends : Point α × Point α}
      (drawn : c.diagram.incompleteEdge? = some e) (starts : e.subject.node? = some subject.id)
      (subjectFound : c.node? subject.id = some subject)
      (objectFound : c.node? object.id = some object)
      (crossed : anchorPoints? subject object = some ends)
      (differs : subject.isOptional ≠ e.isOptional ∨ object.isOptional ≠ e.isOptional) :
      Splits c (.completeEdge object.id)
  /-- An edge is marked, but not another one at the same node. -/
  | setOptional {id : EdgeId} {e other : Edge α} {node : NodeId} (value : Bool)
      (found : c.edge? id = some e) (present : other ∈ c.diagram.edges)
      (complete : other.complete = true) (apart : other.id ≠ id)
      (joined : e.touches node = true) (shared : other.touches node = true)
      (differs : other.isOptional ≠ value) : Splits c (.setOptional id value)
  | click {position : Point α} {hit : Option NodeId}
      (performed : Splits c (c.clickOperation position hit)) : Splits c (.click position hit)

/-! ## Steps -/

/-- A step keeps shared marks unless it splits them. -/
theorem shares_step (h : c.diagram.SharesOptionality) (wf : c.WellFormed)
    (hstep : Step c operation c') (whole : ¬ Splits c operation) :
    c'.diagram.SharesOptionality := by
  induction hstep with
  | quiet _ feed => exact h
  | createNode position kind content selected feed kept =>
    refine h.appendNode fun e he => ?_
    -- no edge ends at a node that was not there
    rw [Bool.eq_false_iff]
    intro htouches
    have hexists : (c.node? ⟨c.nextNode⟩).isSome = true := wf.ends_exist e he _ htouches
    rw [wf.node?_fresh] at hexists
    cases hexists
  | updateNode content feed found =>
    refine h.modifyNode_reanchor _ ?_
    exact fun _ => ⟨rfl, rfl⟩
  | assignNode kind content inferredClass feed found =>
    refine h.modifyNode_reanchor _ ?_
    exact fun _ => ⟨rfl, rfl⟩
  | inferClass label merged feed found inferable =>
    refine h.modifyNode _ ?_
    exact fun _ => ⟨rfl, rfl⟩
  | setClass inferredClass feed found =>
    refine h.modifyNode _ ?_
    exact fun _ => ⟨rfl, rfl⟩
  | moveNode position feed found =>
    refine h.modifyNode_reanchor _ ?_
    exact fun _ => ⟨rfl, rfl⟩
  | deleteNode selected feed found kept =>
    exact h.restrict List.filter_sublist.subset List.filter_sublist.subset
  | startEdge content feed found idle => exact h.appendEdge fun hcomplete => by cases hcomplete
  | @followPointer e pointer feed drawn =>
    -- the edge is still being drawn, so nothing is asked of it
    obtain ⟨hmem, hincomplete⟩ := Diagram.mem_of_incompleteEdge? drawn
    refine h.modifyEdge _ fun x hx hid hcomplete => ?_
    rw [show x = e from wf.edge_unique hx hmem hid] at hcomplete
    rw [show e.complete = true from hcomplete] at hincomplete
    cases hincomplete
  | @completeEdge e subject object ends feed drawn starts subjectFound objectFound crossed =>
    have hboth : subject.isOptional = e.isOptional ∧ object.isOptional = e.isOptional := by
      by_contra hno
      exact whole (.completeEdge drawn starts subjectFound objectFound crossed
        (not_and_or.1 hno))
    exact h.complete wf drawn subjectFound objectFound hboth.1 hboth.2
  | @connect subject object content feed subjectFound objectFound =>
    have hboth : subject.isOptional = false ∧ object.isOptional = false := by
      by_contra hno
      refine whole (.connect content subjectFound objectFound ?_)
      simpa only [not_and_or, Bool.not_eq_false] using hno
    refine h.appendEdge fun _ n hn htouches => ?_
    rcases Edge.eq_or_eq_of_touches rfl rfl htouches with hnode | hnode
    · rw [wf.eq_of_node? hn hnode subjectFound]
      exact hboth.1
    · rw [wf.eq_of_node? hn hnode objectFound]
      exact hboth.2
  | updateEdge content feed found =>
    refine h.modifyEdge _ ?_
    exact fun _ _ _ _ => ⟨rfl, rfl⟩
  | @setOptional id e value feed found =>
    refine h.mark wf found fun other present complete apart node joined shared => ?_
    by_contra hne
    exact whole (.setOptional value found present complete apart joined shared hne)
  | deleteEdge selected feed found kept =>
    exact h.restrict (List.Subset.refl _) List.filter_sublist.subset
  | clear feed => exact h.restrict (List.nil_subset _) (List.nil_subset _)
  | select feed shown => exact h
  | clearSelection feed => exact h
  | setMode mode => exact h
  | click performed ih => exact ih fun hsplits => whole (.click hsplits)

/-- What splits marks does so wherever it is performed. -/
theorem Splits.not_shares (wf : c.WellFormed) (splits : Splits c operation) :
    ¬ (c.perform operation).1.diagram.SharesOptionality := by
  induction splits with
  | @connect subject object content subjectFound objectFound differs =>
    obtain ⟨feed, hconnect⟩ := connect_eq subjectFound objectFound content
    show ¬ (c.connect subject.id object.id content).1.diagram.SharesOptionality
    rw [hconnect]
    intro hshares
    -- the new edge is mandatory, whatever its nodes are marked
    have hedge := hshares (c.joiningEdge subject object content) (by simp) rfl
    rcases differs with hs | ho
    · have hsubject := (Diagram.mem_of_node? subjectFound).1
      have hmark := hedge subject hsubject (by simp [joiningEdge, Endpoint.node?])
      rw [hs] at hmark
      cases hmark
    · have hobject := (Diagram.mem_of_node? objectFound).1
      have hmark := hedge object hobject (by simp [joiningEdge, Endpoint.node?])
      rw [ho] at hmark
      cases hmark
  | @completeEdge e subject object ends drawn starts subjectFound objectFound crossed differs =>
    obtain ⟨feed, hcomplete⟩ := completeEdge_eq drawn starts subjectFound objectFound crossed
    show ¬ (c.completeEdge object.id).1.diagram.SharesOptionality
    rw [hcomplete]
    intro hshares
    obtain ⟨hmem, -⟩ := Diagram.mem_of_incompleteEdge? drawn
    -- the edge counts only now that it is complete, and it has kept its mark
    have hedge := hshares _ (Diagram.mem_modifyEdge hmem) rfl
    rcases differs with hs | ho
    · have hsubject := (Diagram.mem_of_node? subjectFound).1
      exact hs (hedge subject hsubject (by simp [Endpoint.node?]))
    · have hobject := (Diagram.mem_of_node? objectFound).1
      exact ho (hedge object hobject (by simp [Endpoint.node?]))
  | @setOptional id e other node value found present complete apart joined shared differs =>
    obtain ⟨feed, hset⟩ := wf.setOptional_eq found value
    show ¬ (c.setOptional id value).1.diagram.SharesOptionality
    rw [hset]
    intro hshares
    -- the mark of the shared node follows the edge, and that of the other edge there does not
    obtain ⟨n, hn⟩ := Option.isSome_iff_exists.1 (wf.ends_exist other present node shared)
    obtain ⟨hmem, rfl⟩ := Diagram.mem_of_node? hn
    have hat : e.nodes.contains n.id = true :=
      List.contains_iff_mem.2 (Edge.mem_nodes_iff.2 joined)
    have hnode : ({ n with isOptional := value } : Node α) ∈ c.diagram.nodes.map fun n =>
        if e.nodes.contains n.id then { n with isOptional := value } else n :=
      List.mem_map.2 ⟨n, hmem, if_pos hat⟩
    have hother :
        other ∈ (c.diagram.modifyEdge id fun e => { e with isOptional := value }).edges :=
      Diagram.mem_modifyEdge_of_ne present apart
    exact differs (hshares other hother complete _ hnode shared).symm
  | click performed ih =>
    rw [perform_click]
    exact ih

theorem shares_perform_iff (wf : c.WellFormed) (h : c.diagram.SharesOptionality)
    (operation : Operation α) :
    (c.perform operation).1.diagram.SharesOptionality ↔ ¬ Splits c operation := by
  constructor
  · exact fun hshares hsplits => hsplits.not_shares wf hshares
  · exact shares_step h wf (step_perform c operation)

/-! ## Every canvas -/

/-- Whatever is done on a canvas, and in whatever order: complete edges are optional together with
    the nodes at their ends all the time if and only if no operation splits their marks. -/
theorem shares_optionality_throughout_iff (sizes : ShapeSizes α)
    (operations : List (Operation α)) :
    (∀ before, before <+: operations →
        ((Canvas.new sizes).run before).diagram.SharesOptionality) ↔
      ∀ before operation, before ++ [operation] <+: operations →
        ¬ Splits ((Canvas.new sizes).run before) operation := by
  have hstart : ((Canvas.new sizes).run []).diagram.SharesOptionality := by
    intro e he
    cases he
  have hnext : ∀ before operation, ((Canvas.new sizes).run before).diagram.SharesOptionality →
      (((Canvas.new sizes).run (before ++ [operation])).diagram.SharesOptionality ↔
        ¬ Splits ((Canvas.new sizes).run before) operation) := by
    intro before operation hshares
    have hlast : (Canvas.new sizes).run (before ++ [operation]) =
        (((Canvas.new sizes).run before).perform operation).1 := by
      rw [Canvas.run, List.foldl_append]
      rfl
    have wf : ((Canvas.new sizes).run before).WellFormed := (WellFormed.new sizes).run before
    rw [hlast]
    exact shares_perform_iff wf hshares operation
  exact @holds_throughout_iff _ _ (fun c => c.diagram.SharesOptionality) Splits
    (Canvas.new sizes).run hstart hnext operations

/-- Two nodes are optional together with an edge between them, and are connected once more. -/
def halfOptional : Canvas Float :=
  (Canvas.new defaultSizes).run [
    .createNode ⟨0, 0⟩ .unboundVariable "?", .createNode ⟨300, 0⟩ .unboundVariable "?",
    .connect ⟨1⟩ ⟨2⟩ "ex:p", .setOptional ⟨1⟩ true, .connect ⟨2⟩ ⟨1⟩ "ex:q"]

/-- Three nodes in a row, and the first of the two edges between them is marked. -/
def optionalHead : Canvas Float :=
  (Canvas.new defaultSizes).run [
    .createNode ⟨0, 0⟩ .unboundVariable "?", .createNode ⟨300, 0⟩ .unboundVariable "?",
    .createNode ⟨600, 0⟩ .unboundVariable "?", .connect ⟨1⟩ ⟨2⟩ "ex:p",
    .connect ⟨2⟩ ⟨3⟩ "ex:q", .setOptional ⟨1⟩ true]

/-- In both the second edge is not optional, and a node at its end is. -/
theorem optionality_split :
    halfOptional.diagram.edges.map Edge.isOptional = [true, false] ∧
      halfOptional.diagram.nodes.map Node.isOptional = [true, true] ∧
      ¬ halfOptional.diagram.SharesOptionality ∧
      optionalHead.diagram.edges.map Edge.isOptional = [true, false] ∧
      optionalHead.diagram.nodes.map Node.isOptional = [true, true, false] ∧
      ¬ optionalHead.diagram.SharesOptionality := by
  decide

end Canvas

end QueryCanvas
