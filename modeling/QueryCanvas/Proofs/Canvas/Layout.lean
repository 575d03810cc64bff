/-
  QueryCanvas.Proofs.Canvas.Layout

  What the canvas computes from other parts of itself and keeps: the outlines
  of nodes, the kinds of edges, and the ends of edges. They are always what
  would be computed now.

  The ends of an edge depend on where its two nodes stand and on their outlines
  (`Diagram.place?`). Steps fall apart accordingly: those that leave the places
  of all nodes with edges alone, and those that change one node and then
  reanchor the edges at it.
-/

import QueryCanvas.Proofs.Canvas.Structure

namespace QueryCanvas

variable {α : Type}

namespace Diagram

/-! ## Places -/

/-- Where a node stands, and its outline. -/
def place? (d : Diagram α) (id : NodeId) : Option (Point α × Shape α) :=
  (d.node? id).map fun n => (n.position, n.shape)

theorem place?_of_node? {d : Diagram α} {id : NodeId} {n : Node α} (h : d.node? id = some n) :
    d.place? id = some (n.position, n.shape) := by
  rw [place?, h]
  rfl

theorem place?_append {d : Diagram α} {id : NodeId} (h : (d.node? id).isSome)
    (more : List (Node α)) :
    ({ d with nodes := d.nodes ++ more } : Diagram α).place? id = d.place? id := by
  rw [place?, node?_append_of_isSome h]
  rfl

theorem place?_modifyNode_of_ne (d : Diagram α) {id other : NodeId} {f : Node α → Node α}
    (keeps : ∀ n, (f n).id = n.id) (h : other ≠ id) :
    (d.modifyNode id f).place? other = d.place? other := by
  have hkeeps : ∀ n : Node α, (if n.id = id then f n else n).id = n.id := by
    intro n
    split <;> simp [keeps]
  rw [place?, place?, modifyNode, node?_map d hkeeps]
  cases hn : d.node? other with
  | none => rfl
  | some n =>
    have hne : n.id ≠ id := (mem_of_node? hn).2 ▸ h
    simp [hne]

/-- A change of nodes that moves none of them and keeps outlines. -/
theorem place?_map (d : Diagram α) {f : Node α → Node α} (keeps : ∀ n, (f n).id = n.id)
    (still : ∀ n ∈ d.nodes, (f n).position = n.position ∧ (f n).shape = n.shape) (id : NodeId) :
    ({ d with nodes := d.nodes.map f } : Diagram α).place? id = d.place? id := by
  rw [place?, place?, node?_map d keeps]
  cases hn : d.node? id with
  | none => rfl
  | some n =>
    obtain ⟨hposition, hshape⟩ := still n (mem_of_node? hn).1
    simp [hposition, hshape]

theorem place?_filter_of_ne (d : Diagram α) {id other : NodeId} (h : other ≠ id)
    (edges : List (Edge α)) :
    (⟨d.nodes.filter (·.id ≠ id), edges⟩ : Diagram α).place? other = d.place? other := by
  have hfind : (d.nodes.filter (·.id ≠ id)).find? (·.id = other)
      = d.nodes.find? (·.id = other) := by
    rw [List.find?_filter]
    congr 1
    funext n
    by_cases hn : n.id = other <;> simp [hn, h]
  rw [place?, place?, node?, node?, hfind]

end Diagram

/-! ## Ends of edges -/

theorem Endpoint.point_reanchored {e : Endpoint α} (h : e.node?.isSome) (p : Point α) :
    (e.reanchored p).point = p := by
  cases e with
  | anchored node point => rfl
  | free point => simp [Endpoint.node?] at h

/-- An end is known by its node and its point. -/
theorem Endpoint.eq_anchored {e : Endpoint α} {id : NodeId} {p : Point α}
    (hnode : e.node? = some id) (hpoint : e.point = p) : e = .anchored id p := by
  cases e with
  | anchored node point =>
    obtain rfl : node = id := by simpa [Endpoint.node?] using hnode
    rw [← hpoint]
    rfl
  | free point => simp [Endpoint.node?] at hnode

variable [Scalar α]

/-- The anchors depend on the places of the nodes only. -/
theorem anchorPoints?_congr {subject object subject' object' : Node α}
    (hs : (subject'.position, subject'.shape) = (subject.position, subject.shape))
    (ho : (object'.position, object'.shape) = (object.position, object.shape)) :
    anchorPoints? subject' object' = anchorPoints? subject object := by
  obtain ⟨hsp, hss⟩ := Prod.mk.inj hs
  obtain ⟨hop, hos⟩ := Prod.mk.inj ho
  simp [anchorPoints?, hsp, hss, hop, hos]

namespace Diagram

/-- Where the ends of an edge belong, computed from the nodes at them. -/
def ends? (d : Diagram α) (e : Edge α) : Option (Point α × Point α) := do
  let subject ← d.node? (← e.subject.node?)
  let object ← d.node? (← e.object.node?)
  anchorPoints? subject object

theorem ends?_eq_some {d : Diagram α} {e : Edge α} {subject object : Node α}
    (hs : e.subject.node? = some subject.id) (hsubject : d.node? subject.id = some subject)
    (ho : e.object.node? = some object.id) (hobject : d.node? object.id = some object) :
    d.ends? e = anchorPoints? subject object := by
  simp [ends?, hs, hsubject, ho, hobject]

/-- An edge with computed ends is anchored on both sides. -/
theorem anchored_of_ends? {d : Diagram α} {e : Edge α} {ends : Point α × Point α}
    (h : d.ends? e = some ends) : e.subject.node?.isSome ∧ e.object.node?.isSome := by
  unfold ends? at h
  cases hs : e.subject.node? with
  | none => simp [hs] at h
  | some s =>
    cases ho : e.object.node? with
    | none => simp [hs, ho] at h
    | some o => exact ⟨rfl, rfl⟩

/-- The computed ends stay as they are while the nodes at the edge stay where they are. -/
theorem ends?_congr {d d' : Diagram α} {e e' : Edge α}
    (places : ∀ id, e.touches id → d'.place? id = d.place? id)
    (hs : e'.subject.node? = e.subject.node?) (ho : e'.object.node? = e.object.node?) :
    d'.ends? e' = d.ends? e := by
  unfold ends?
  rw [hs, ho]
  cases hsubject : e.subject.node? with
  | none => rfl
  | some s =>
    cases hobject : e.object.node? with
    | none => simp
    | some o =>
      have hplaces := places s (by simp [hsubject])
      have hplaceo := places o (by simp [hobject])
      unfold place? at hplaces hplaceo
      simp only [Option.bind_eq_bind, Option.bind_some]
      -- the two diagrams find a node at each end or none, and in the same place
      cases hn : d.node? s <;> cases hn' : d'.node? s <;> simp [hn, hn'] at hplaces ⊢
      cases hm : d.node? o <;> cases hm' : d'.node? o <;> simp [hm, hm'] at hplaceo ⊢
      exact anchorPoints?_congr (Prod.ext hplaces.1 hplaces.2) (Prod.ext hplaceo.1 hplaceo.2)

end Diagram

/-- The ends of an edge are where they belong: those of a complete edge at the computed anchors,
    if there are any; an edge being drawn starts at the center of its subject. -/
structure Edge.InPlace (e : Edge α) (d : Diagram α) : Prop where
  ends : e.complete = true → ∀ s o, d.ends? e = some (s, o) →
    e.subject.point = s ∧ e.object.point = o
  start : e.complete = false → ∀ id place, e.subject.node? = some id → d.place? id = some place →
    e.subject.point = place.1

namespace Edge.InPlace

variable {d d' : Diagram α} {e e' : Edge α}

/-- An edge stays in place while its nodes do. -/
theorem congr (h : e.InPlace d) (places : ∀ id, e.touches id → d'.place? id = d.place? id)
    (hs : e'.subject = e.subject) (ho : e'.object = e.object) (hc : e'.complete = e.complete) :
    e'.InPlace d' where
  ends hcomplete s o hends := by
    rw [hs, ho]
    rw [Diagram.ends?_congr places (by rw [hs]) (by rw [ho])] at hends
    exact h.ends (hc ▸ hcomplete) s o hends
  start hincomplete id place hid hplace := by
    rw [hs] at hid ⊢
    rw [places id (by simp [hid])] at hplace
    exact h.start (hc ▸ hincomplete) id place hid hplace

end Edge.InPlace

/-- Reanchoring the edges at a node puts them where they belong. -/
theorem Edge.InPlace.reanchoredEdge {d d' : Diagram α} {e : Edge α} {id : NodeId}
    (h : e.InPlace d) (others : ∀ other, other ≠ id → d'.place? other = d.place? other) :
    (d'.reanchoredEdge id e).InPlace d' := by
  -- an edge that is not at the node stays as it is, and so do the places of its nodes
  have haway : (∀ other, e.touches other → other ≠ id) → e.InPlace d' := by
    intro hne
    exact h.congr (fun other ht => others other (hne other ht)) rfl rfl rfl
  unfold Diagram.reanchoredEdge
  split
  -- a complete edge: both ends are computed anew, or kept if there is no crossing
  · next hcomplete =>
    split
    · next ht =>
      dsimp only
      split
      · next s o hends =>
        obtain ⟨hs, ho⟩ := Diagram.anchored_of_ends? (e := e) (d := d') hends
        refine ⟨fun _ s' o' hends' => ?_, fun hno => by simp [hcomplete] at hno⟩
        rw [Diagram.ends?_congr (d := d') (e := e) (fun _ _ => rfl) (by simp) (by simp)] at hends'
        obtain ⟨rfl, rfl⟩ := Prod.mk.inj (Option.some.inj (hends.symm.trans hends'))
        exact ⟨Endpoint.point_reanchored hs s, Endpoint.point_reanchored ho o⟩
      · next hnone =>
        refine ⟨fun _ s o hends => ?_, fun hno => by simp [hcomplete] at hno⟩
        have hends' : d'.ends? e = none := hnone
        rw [hends'] at hends
        cases hends
    · next ht => exact haway fun other hother hid => ht (hid ▸ hother)
  -- the edge being drawn: its start follows the node
  · next hincomplete =>
    have hincomplete : e.complete = false := by simpa using hincomplete
    split
    · next n hn =>
      split
      · next hid =>
        refine ⟨fun hno => by simp [hincomplete] at hno, fun _ i place hi hplace => ?_⟩
        obtain rfl : id = i := by simpa [hid] using hi
        rw [Diagram.place?_of_node? hn] at hplace
        obtain rfl := Option.some.inj hplace
        exact Endpoint.point_reanchored (by simp [hid]) _
      · next hid =>
        refine ⟨fun hno => by simp [hincomplete] at hno, fun _ i place hi hplace => ?_⟩
        have hne : i ≠ id := fun heq => hid (heq ▸ hi)
        exact h.start hincomplete i place hi (others i hne ▸ hplace)
    · next hn =>
      refine ⟨fun hno => by simp [hincomplete] at hno, fun _ i place hi hplace => ?_⟩
      have hne : i ≠ id := by
        rintro rfl
        simp [Diagram.place?, hn] at hplace
      exact h.start hincomplete i place hi (others i hne ▸ hplace)

/-- Reanchoring changes nothing but ends. -/
theorem Diagram.reanchoredEdge_shows (d : Diagram α) (id : NodeId) (e : Edge α) :
    (d.reanchoredEdge id e).kind = e.kind ∧ (d.reanchoredEdge id e).content = e.content := by
  unfold reanchoredEdge
  split
  · split
    · dsimp only
      split <;> exact ⟨rfl, rfl⟩
    · exact ⟨rfl, rfl⟩
  · split
    · split <;> exact ⟨rfl, rfl⟩
    · exact ⟨rfl, rfl⟩

/-- An edge after a change of a node: only an edge at the node may differ, and only in the points
    at which it ends. -/
structure Edge.Follows (id : NodeId) (e e' : Edge α) : Prop where
  away : e.touches id = false → e' = e
  ends : ∃ s o, e' = { e with subject := e.subject.reanchored s, object := e.object.reanchored o }

omit [Scalar α] in
@[simp] theorem Endpoint.reanchored_point (e : Endpoint α) : e.reanchored e.point = e := by
  cases e <;> rfl

omit [Scalar α] in
theorem Edge.Follows.refl (id : NodeId) (e : Edge α) : Edge.Follows id e e :=
  ⟨fun _ => rfl, e.subject.point, e.object.point, by simp⟩

/-- Reanchoring the edges at a node moves ends of these edges. -/
theorem Diagram.reanchoredEdge_follows (d : Diagram α) (id : NodeId) (e : Edge α) :
    Edge.Follows id e (d.reanchoredEdge id e) := by
  unfold reanchoredEdge
  split
  · split
    · next ht =>
      dsimp only
      split
      · next s o _ => exact ⟨fun haway => by simp [haway] at ht, s, o, rfl⟩
      · exact .refl id e
    · exact .refl id e
  · split
    · next n _ =>
      split
      · next hs =>
        refine ⟨fun haway => ?_, n.position, e.object.point, by simp⟩
        have ht : e.touches id = true := Edge.touches_iff.2 (.inl hs)
        simp [haway] at ht
      · exact .refl id e
    · exact .refl id e

/-! ## Outlines -/

theorem NodeKind.shape_movedTo (kind : NodeKind) (center position : Point α)
    (sizes : ShapeSizes α) :
    (kind.shape center sizes).movedTo position = kind.shape position sizes := by
  cases kind <;> rfl

/-- Kinds between which range inference switches have the same outline. -/
theorem NodeKind.shape_of_inferable {kind : NodeKind} (h : kind.isInferable) (merged : Bool) :
    NodeKind.shape (if merged then .amalgam else .unboundVariable) (α := α) = kind.shape := by
  cases kind <;> cases merged <;> first | rfl | simp [isInferable] at h

/-! ## The invariant -/

namespace Canvas

/-- What the canvas keeps of outlines, kinds of edges, and ends is what would be computed now. -/
structure Current (c : Canvas α) : Prop where
  outlines : ∀ n ∈ c.diagram.nodes, n.shape = n.kind.shape n.position c.sizes
  edge_kinds : ∀ e ∈ c.diagram.edges, e.kind = .ofContent e.content
  in_place : ∀ e ∈ c.diagram.edges, e.InPlace c.diagram

namespace Current

variable {c : Canvas α}

/-- A node may change in any way that gives it the outline of its kind, if the edges at it are
    reanchored. -/
theorem changeNode (h : c.Current) (feed : Option (List (Event α))) (id : NodeId)
    {f : Node α → Node α} (keeps : ∀ n, (f n).id = n.id)
    (outline : ∀ n ∈ c.diagram.nodes, (f n).shape = (f n).kind.shape (f n).position c.sizes) :
    ({ c with diagram := (c.diagram.modifyNode id f).reanchor id, feed := feed } :
      Canvas α).Current where
  outlines m hm := by
    obtain ⟨n, hn, rfl⟩ := List.mem_map.1 hm
    split
    · exact outline n hn
    · exact h.outlines n hn
  edge_kinds x hx := by
    obtain ⟨e, he, rfl⟩ := List.mem_map.1 hx
    obtain ⟨hkind, hcontent⟩ := Diagram.reanchoredEdge_shows (c.diagram.modifyNode id f) id e
    rw [hkind, hcontent]
    exact h.edge_kinds e he
  in_place x hx := by
    obtain ⟨e, he, rfl⟩ := List.mem_map.1 hx
    have hplaced : ((c.diagram.modifyNode id f).reanchoredEdge id e).InPlace
        (c.diagram.modifyNode id f) :=
      (h.in_place e he).reanchoredEdge fun other hne =>
        c.diagram.place?_modifyNode_of_ne keeps hne
    exact hplaced.congr (fun _ _ => rfl) rfl rfl rfl

/-- Nodes that stay where they are may change without a look at the edges. -/
theorem changeNodes (h : c.Current) (feed : Option (List (Event α))) {f : Node α → Node α}
    (keeps : ∀ n, (f n).id = n.id)
    (still : ∀ n ∈ c.diagram.nodes, (f n).position = n.position ∧ (f n).shape = n.shape)
    (outline : ∀ n ∈ c.diagram.nodes, (f n).shape = (f n).kind.shape (f n).position c.sizes) :
    ({ c with diagram := { c.diagram with nodes := c.diagram.nodes.map f }, feed := feed } :
      Canvas α).Current where
  outlines m hm := by
    obtain ⟨n, hn, rfl⟩ := List.mem_map.1 hm
    exact outline n hn
  edge_kinds := h.edge_kinds
  in_place e he :=
    (h.in_place e he).congr (fun id _ => c.diagram.place?_map keeps still id) rfl rfl rfl

/-- An edge may be added that is in place. -/
theorem appendEdge (h : c.Current) (feed : Option (List (Event α))) {e : Edge α}
    (kind : e.kind = .ofContent e.content) (placed : e.InPlace c.diagram) (completing : Bool) :
    ({ c with
        diagram := { c.diagram with edges := c.diagram.edges ++ [e] }
        nextEdge := c.nextEdge + 1
        completing := completing
        feed := feed } : Canvas α).Current where
  outlines := h.outlines
  edge_kinds := List.forall_mem_append.2 ⟨h.edge_kinds, List.forall_mem_singleton.2 kind⟩
  in_place x hx := by
    have hplaced : ∀ x ∈ c.diagram.edges ++ [e], x.InPlace c.diagram :=
      List.forall_mem_append.2 ⟨h.in_place, List.forall_mem_singleton.2 placed⟩
    exact (hplaced x hx).congr (fun _ _ => rfl) rfl rfl rfl

/-- An edge may change in any way that leaves its kind current and itself in place. -/
theorem changeEdge (h : c.Current) (feed : Option (List (Event α))) (id : EdgeId)
    {f : Edge α → Edge α} (completing : Bool)
    (kind : ∀ e ∈ c.diagram.edges, (f e).kind = .ofContent (f e).content)
    (placed : ∀ e ∈ c.diagram.edges, (f e).InPlace c.diagram) :
    ({ c with
        diagram := c.diagram.modifyEdge id f
        completing := completing
        feed := feed } : Canvas α).Current where
  outlines := h.outlines
  edge_kinds x hx := by
    obtain ⟨e, he, rfl⟩ := List.mem_map.1 hx
    split
    · exact kind e he
    · exact h.edge_kinds e he
  in_place x hx := by
    obtain ⟨e, he, rfl⟩ := List.mem_map.1 hx
    have hx : (if e.id = id then f e else e).InPlace c.diagram := by
      split
      · exact placed e he
      · exact h.in_place e he
    exact hx.congr (fun _ _ => rfl) rfl rfl rfl

/-- Nodes and edges may be removed, if the nodes at the remaining edges stay. -/
theorem restrict (h : c.Current) (feed : Option (List (Event α))) {nodes : List (Node α)}
    {edges : List (Edge α)} (hnodes : nodes ⊆ c.diagram.nodes) (hedges : edges ⊆ c.diagram.edges)
    (places : ∀ e ∈ edges, ∀ id, e.touches id →
      (⟨nodes, edges⟩ : Diagram α).place? id = c.diagram.place? id)
    (completing : Bool) (selected : Option ElementRef) :
    ({ c with
        diagram := ⟨nodes, edges⟩
        completing := completing
        selected := selected
        feed := feed } : Canvas α).Current where
  outlines n hn := h.outlines n (hnodes hn)
  edge_kinds e he := h.edge_kinds e (hedges he)
  in_place e he := (h.in_place e (hedges he)).congr (places e he) rfl rfl rfl

theorem step {c' : Canvas α} {operation : Operation α} (wf : c.WellFormed) (h : c.Current)
    (hstep : Step c operation c') : c'.Current := by
  induction hstep with
  | quiet _ feed => exact { h with }
  | createNode position kind content selected feed kept =>
    -- no edge is at the new node
    refine ⟨?_, h.edge_kinds, fun e he => ?_⟩
    · exact List.forall_mem_append.2 ⟨h.outlines, List.forall_mem_singleton.2 rfl⟩
    · refine (h.in_place e he).congr (fun id ht => ?_) rfl rfl rfl
      exact Diagram.place?_append (wf.ends_exist e he id ht) _
  | updateNode content feed found => exact h.changeNode feed _ (fun _ => rfl) fun _ _ => rfl
  | assignNode kind content inferredClass feed found =>
    exact h.changeNode feed _ (fun _ => rfl) fun _ _ => rfl
  | @inferClass id n label merged feed found inferable =>
    refine h.changeNodes feed ?_ ?_ ?_
    · intro m
      split <;> rfl
    · intro m hm
      split
      · next hid =>
        -- the node that is changed is the one that was found, so its kind is inferable
        obtain rfl : m = n := wf.eq_of_node? hm hid found
        refine ⟨rfl, ?_⟩
        rw [h.outlines m hm, ← NodeKind.shape_of_inferable inferable merged]
        rfl
      · exact ⟨rfl, rfl⟩
    · intro m hm
      split
      · rfl
      · exact h.outlines m hm
  | setClass inferredClass feed found =>
    refine h.changeNodes feed ?_ ?_ ?_
    · intro m
      split <;> rfl
    · intro m hm
      split <;> exact ⟨rfl, rfl⟩
    · intro m hm
      split <;> exact h.outlines m hm
  | moveNode position feed found =>
    refine h.changeNode feed _ (fun _ => rfl) fun n hn => ?_
    show n.shape.movedTo position = n.kind.shape position c.sizes
    rw [h.outlines n hn, NodeKind.shape_movedTo]
  | @deleteNode id n selected feed found kept =>
    refine h.restrict feed (List.filter_subset_self _) (List.filter_subset_self _) ?_ _ _
    intro e he i ht
    obtain ⟨-, hnot⟩ := List.mem_filter.1 he
    have hi : i ≠ id := fun hi => by simp [hi ▸ ht] at hnot
    exact Diagram.place?_filter_of_ne _ hi _
  | @startEdge id n content feed found idle =>
    refine h.appendEdge feed rfl ⟨fun hno => by simp [drawnEdge] at hno, ?_⟩ true
    intro _ i place hi hplace
    obtain ⟨-, rfl⟩ := Diagram.mem_of_node? found
    obtain rfl : n.id = i := by simpa [drawnEdge, Endpoint.node?] using hi
    rw [Diagram.place?_of_node? found] at hplace
    obtain rfl := Option.some.inj hplace
    rfl
  | @followPointer e pointer feed drawn =>
    refine h.changeEdge feed _ c.completing (fun x hx => h.edge_kinds x hx) fun x hx => ?_
    -- with a free end there are no anchors to compare with
    refine ⟨fun _ s o hends => ?_, (h.in_place x hx).start⟩
    have := (Diagram.anchored_of_ends? hends).2
    simp [Endpoint.node?] at this
  | @completeEdge e subject object ends feed drawn starts subjectFound objectFound crossed =>
    refine h.changeEdge feed _ false (fun x hx => h.edge_kinds x hx) fun x hx => ?_
    refine ⟨fun _ s o hends => ?_, fun hno => by simp at hno⟩
    rw [Diagram.ends?_eq_some rfl subjectFound rfl objectFound, crossed] at hends
    obtain rfl := Option.some.inj hends
    exact ⟨rfl, rfl⟩
  | @connect subject object content feed subjectFound objectFound =>
    refine h.appendEdge feed rfl ⟨fun _ s o hends => ?_, fun hno => by simp [joiningEdge] at hno⟩ _
    rw [Diagram.ends?_eq_some rfl subjectFound rfl objectFound] at hends
    simp [joiningEdge, hends, Endpoint.point]
  | @updateEdge id e content feed found =>
    refine h.changeEdge feed _ c.completing (fun _ _ => rfl) fun x hx => ?_
    exact (h.in_place x hx).congr (fun _ _ => rfl) rfl rfl rfl
  | @setOptional id e value feed found =>
    -- first the edge, then the nodes at its ends
    have hedges := h.changeEdge feed id c.completing
      (f := fun e => { e with isOptional := value }) (fun x hx => h.edge_kinds x hx) fun x hx =>
        (h.in_place x hx).congr (fun _ _ => rfl) rfl rfl rfl
    refine hedges.changeNodes feed ?_ ?_ ?_
    · intro n
      split <;> rfl
    · intro n hn
      split <;> exact ⟨rfl, rfl⟩
    · intro n hn
      split <;> exact h.outlines n hn
  | deleteEdge selected feed found kept =>
    exact h.restrict feed (List.Subset.refl _) (List.filter_subset_self _) (fun _ _ _ _ => rfl) _ _
  | clear feed =>
    exact h.restrict feed (List.nil_subset _) (List.nil_subset _) (fun _ he => by simp at he) _ _
  | select feed shown => exact { h with }
  | clearSelection feed => exact { h with }
  | setMode mode => exact { h with }
  | click _ ih => exact ih

end Current

theorem Reachable.current {allowed : Operation α → Prop} {sizes : ShapeSizes α} {c : Canvas α}
    (reached : Reachable allowed sizes c) : c.Current := by
  refine reached.induct ⟨?_, ?_, ?_⟩ (fun _ _ h => { h with }) ?_
  · exact fun n hn => absurd hn List.not_mem_nil
  · exact fun e he => absurd he List.not_mem_nil
  · exact fun e he => absurd he List.not_mem_nil
  · exact fun c c' operation before h _ hstep => h.step before.wellFormed hstep

/-- Nothing that the canvas has computed is out of date: outlines fit kinds and positions, kinds of
    edges fit contents, the ends of a complete edge are the anchors between its two nodes if there
    are any, and an edge being drawn starts at the center of its node. -/
theorem Reachable.up_to_date {allowed : Operation α → Prop} {sizes : ShapeSizes α} {c : Canvas α}
    (reached : Reachable allowed sizes c) :
    (∀ n ∈ c.diagram.nodes, n.shape = n.kind.shape n.position sizes) ∧
      (∀ e ∈ c.diagram.edges, e.kind = .ofContent e.content) ∧
      (∀ e ∈ c.diagram.edges, e.complete = true → ∃ subject object,
        c.node? subject.id = some subject ∧ c.node? object.id = some object ∧
          e.subject.node? = some subject.id ∧ e.object.node? = some object.id ∧
          ∀ s o, anchorPoints? subject object = some (s, o) →
            e.subject = .anchored subject.id s ∧ e.object = .anchored object.id o) ∧
      ∀ e ∈ c.diagram.edges, e.complete = false → ∃ subject,
        c.node? subject.id = some subject ∧ e.subject = .anchored subject.id subject.position := by
  have wf := reached.wellFormed
  have h := reached.current
  refine ⟨reached.sizes_eq ▸ h.outlines, h.edge_kinds, fun e he hcomplete => ?_,
    fun e he hincomplete => ?_⟩
  · obtain ⟨subject, hs, hsubject⟩ := wf.start_exists he
    obtain ⟨object, ho, hobject⟩ := wf.finish_exists he hcomplete
    -- the anchors between the nodes are the ends computed from the diagram
    refine ⟨subject, object, hsubject, hobject, hs, ho, fun s o hends => ?_⟩
    rw [← Diagram.ends?_eq_some hs hsubject ho hobject] at hends
    obtain ⟨hsp, hop⟩ := (h.in_place e he).ends hcomplete s o hends
    exact ⟨Endpoint.eq_anchored hs hsp, Endpoint.eq_anchored ho hop⟩
  · obtain ⟨subject, hs, hsubject⟩ := wf.start_exists he
    refine ⟨subject, hsubject, Endpoint.eq_anchored hs ?_⟩
    exact (h.in_place e he).start hincomplete _ _ hs (Diagram.place?_of_node? hsubject)

theorem up_to_date_sketch :
    sketch.diagram.edges.map Edge.complete = [true, false] ∧
      (∀ n ∈ sketch.diagram.nodes, n.shape = n.kind.shape n.position defaultSizes) ∧
      (∀ e ∈ sketch.diagram.edges, e.kind = .ofContent e.content) ∧
      (∀ e ∈ sketch.diagram.edges, e.complete = true → ∃ subject object,
        sketch.node? subject.id = some subject ∧ sketch.node? object.id = some object ∧
          e.subject.node? = some subject.id ∧ e.object.node? = some object.id ∧
          ∀ s o, anchorPoints? subject object = some (s, o) →
            e.subject = .anchored subject.id s ∧ e.object = .anchored object.id o) ∧
      ∀ e ∈ sketch.diagram.edges, e.complete = false → ∃ subject,
        sketch.node? subject.id = some subject ∧
          e.subject = .anchored subject.id subject.position :=
  ⟨rfl, Reachable.up_to_date reachable_sketch⟩

end Canvas

end QueryCanvas
