/-
  QueryCanvas.Proofs.Canvas.Placement

  What the operations make of a canvas that put elements on it or change them,
  written out for the case that they find what they need.

  An identity that is handed out is new (`WellFormed.node?_fresh`). So the node
  that was just added is found under it, and a change of this node concerns no
  other.
-/

import QueryCanvas.Proofs.Canvas.Structure

namespace QueryCanvas.Canvas

variable {α : Type} {c : Canvas α}

/-! ## New identities -/

/-- The canvas with another node, whatever is selected and told about it. -/
def withNode (c : Canvas α) (n : Node α) (selected : Option ElementRef)
    (feed : Option (List (Event α))) : Canvas α :=
  { c with
    diagram := { c.diagram with nodes := c.diagram.nodes ++ [n] }
    nextNode := c.nextNode + 1
    selected := selected
    feed := feed }

/-- A new identity is not in use. -/
theorem WellFormed.id_ne_fresh (h : c.WellFormed) {n : Node α} (hn : n ∈ c.diagram.nodes) :
    n.id ≠ ⟨c.nextNode⟩ := by
  intro hid
  have hbelow := h.nodes_below n hn
  rw [hid] at hbelow
  exact Nat.lt_irrefl _ hbelow

theorem WellFormed.edgeId_ne_fresh (h : c.WellFormed) {e : Edge α} (he : e ∈ c.diagram.edges) :
    e.id ≠ ⟨c.nextEdge⟩ := by
  intro hid
  have hbelow := h.edges_below e he
  rw [hid] at hbelow
  exact Nat.lt_irrefl _ hbelow

theorem WellFormed.node?_fresh (h : c.WellFormed) : c.node? ⟨c.nextNode⟩ = none := by
  rw [node?, Diagram.node?, List.find?_eq_none]
  intro n hn
  simpa using h.id_ne_fresh hn

theorem WellFormed.edge?_fresh (h : c.WellFormed) : c.edge? ⟨c.nextEdge⟩ = none := by
  rw [edge?, Diagram.edge?, List.find?_eq_none]
  intro e he
  simpa using h.edgeId_ne_fresh he

section

variable {n : Node α} (selected : Option ElementRef) (feed : Option (List (Event α)))

/-- A node that was just added under a new identity is found under it. -/
theorem WellFormed.node?_withNode (h : c.WellFormed) (hid : n.id = ⟨c.nextNode⟩) :
    (c.withNode n selected feed).node? n.id = some n := by
  have hnew : c.diagram.nodes.find? (·.id = n.id) = none := hid ▸ h.node?_fresh
  simp [withNode, node?, Diagram.node?, List.find?_append, hnew]

/-- A change of the node that was just added leaves the others alone. -/
theorem WellFormed.modifyNode_withNode (h : c.WellFormed) (hid : n.id = ⟨c.nextNode⟩)
    (f : Node α → Node α) :
    (c.withNode n selected feed).diagram.modifyNode n.id f =
      (c.withNode (f n) selected feed).diagram := by
  have hothers : ∀ m ∈ c.diagram.nodes, (if m.id = n.id then f m else m) = m := by
    intro m hm
    rw [hid, if_neg (h.id_ne_fresh hm)]
  simp [withNode, Diagram.modifyNode, List.map_congr_left hothers]

end

/-- A change of the edge that was just added leaves the others alone. -/
theorem WellFormed.modifyEdge_append (h : c.WellFormed) {e : Edge α} (hid : e.id = ⟨c.nextEdge⟩)
    (f : Edge α → Edge α) :
    ({ c.diagram with edges := c.diagram.edges ++ [e] } : Diagram α).modifyEdge e.id f =
      { c.diagram with edges := c.diagram.edges ++ [f e] } := by
  have hothers : ∀ x ∈ c.diagram.edges, (if x.id = e.id then f x else x) = x := by
    intro x hx
    rw [hid, if_neg (h.edgeId_ne_fresh hx)]
  simp [Diagram.modifyEdge, List.map_congr_left hothers]

/-! ## Operations that find what they need -/

theorem setClass_eq {n : Node α} {id : NodeId} (found : c.node? id = some n)
    (inferredClass : Option String) :
    ∃ feed, c.setClass id inferredClass =
      ({ c with
          diagram := c.diagram.modifyNode id fun n => { n with inferredClass := inferredClass }
          feed := feed }, .ok ()) := by
  refine ⟨(c.setClass id inferredClass).1.feed, ?_⟩
  simp only [setClass, found]
  rfl

/-- An edge is marked together with the nodes at its ends, which all exist. -/
theorem WellFormed.setOptional_eq (h : c.WellFormed) {e : Edge α} {id : EdgeId}
    (found : c.edge? id = some e) (value : Bool) :
    ∃ feed, c.setOptional id value =
      ({ c with
          diagram :=
            { c.diagram.modifyEdge id fun e => { e with isOptional := value } with
              nodes := c.diagram.nodes.map fun n =>
                if e.nodes.contains n.id then { n with isOptional := value } else n }
          feed := feed }, .ok ()) := by
  have hexist : e.nodes.find? (fun node => (c.node? node).isNone) = none := by
    rw [List.find?_eq_none]
    intro node hnode
    have hmem : e ∈ c.diagram.edges := (Diagram.mem_of_edge? found).1
    have hsome := h.ends_exist e hmem node (Edge.mem_nodes_iff.1 hnode)
    simp [Option.isSome_iff_ne_none.1 hsome]
  refine ⟨(c.setOptional id value).1.feed, ?_⟩
  rw [Edge.nodes] at hexist
  simp only [setOptional, found, hexist]
  rfl

variable [Scalar α]

theorem createNode_eq (c : Canvas α) (position : Point α) (kind : NodeKind) (content : String) :
    ∃ selected feed, c.createNode position kind content =
      (c.withNode (c.freshNode position kind content) selected feed, ⟨c.nextNode⟩) := by
  simp only [createNode]
  split
  · exact ⟨c.selected, _, rfl⟩
  · rcases select_eq _ (.node ⟨c.nextNode⟩) with ⟨feed, h⟩ | ⟨-, feed, h⟩
    · exact ⟨c.selected, feed, by rw [h]; rfl⟩
    · exact ⟨_, feed, by rw [h]; rfl⟩

theorem createNode_id (c : Canvas α) (position : Point α) (kind : NodeKind) (content : String) :
    (c.createNode position kind content).2 = ⟨c.nextNode⟩ := by
  obtain ⟨selected, feed, hcreate⟩ := c.createNode_eq position kind content
  rw [hcreate]

/-- A new node is given its class at once. -/
theorem WellFormed.setClass_createNode (h : c.WellFormed) (position : Point α) (kind : NodeKind)
    (content : String) (inferredClass : Option String) :
    ∃ selected feed, (c.createNode position kind content).1.setClass ⟨c.nextNode⟩ inferredClass =
      (c.withNode { c.freshNode position kind content with inferredClass := inferredClass }
        selected feed, .ok ()) := by
  obtain ⟨selected, feed, hcreate⟩ := c.createNode_eq position kind content
  let fresh := c.freshNode position kind content
  have hfresh := h.node?_withNode (n := fresh) selected feed rfl
  obtain ⟨feed', hset⟩ := setClass_eq hfresh inferredClass
  have hclassed := h.modifyNode_withNode (n := fresh) selected feed rfl
    fun n => { n with inferredClass := inferredClass }
  refine ⟨selected, feed', ?_⟩
  rw [hcreate]
  refine hset.trans ?_
  rw [hclassed]
  rfl

theorem connect_eq {subject object : Node α} (hs : c.node? subject.id = some subject)
    (ho : c.node? object.id = some object) (content : String) :
    ∃ feed, c.connect subject.id object.id content =
      ({ c with
          diagram := { c.diagram with
            edges := c.diagram.edges ++ [c.joiningEdge subject object content] }
          nextEdge := c.nextEdge + 1
          feed := feed }, .ok ⟨c.nextEdge⟩) := by
  refine ⟨(c.connect subject.id object.id content).1.feed, ?_⟩
  simp only [connect, hs, ho]
  rfl

theorem assignNode_eq {n : Node α} {id : NodeId} (found : c.node? id = some n) (kind : NodeKind)
    (content : String) (inferredClass : Option String) :
    ∃ feed, c.assignNode id kind content inferredClass =
      ({ c with
          diagram := (c.diagram.modifyNode id fun n =>
            ({ n with kind := kind, content := content, inferredClass := inferredClass } :
              Node α).reshaped c.sizes).reanchor id
          feed := feed }, .ok ()) := by
  obtain ⟨feed, h⟩ := c.recast_eq id fun n =>
    { n with kind := kind, content := content, inferredClass := inferredClass }
  exact ⟨feed, by simp only [assignNode, found, h]⟩

/-- While no other edge is being drawn, one is started at a node. -/
theorem startEdge_eq {n : Node α} (found : c.node? n.id = some n)
    (idle : c.diagram.incompleteEdge? = none) (content : String) :
    ∃ feed, c.startEdge n.id content =
      ({ c with
          diagram := { c.diagram with edges := c.diagram.edges ++ [c.drawnEdge n content] }
          nextEdge := c.nextEdge + 1
          completing := true
          feed := feed }, .ok (some ⟨c.nextEdge⟩)) := by
  refine ⟨(c.startEdge n.id content).1.feed, ?_⟩
  simp only [startEdge, found, idle]
  rfl

/-- An edge that starts at a node is drawn to another whose outline it meets. -/
theorem completeEdge_eq {e : Edge α} {subject object : Node α} {ends : Point α × Point α}
    (drawn : c.diagram.incompleteEdge? = some e) (starts : e.subject.node? = some subject.id)
    (hs : c.node? subject.id = some subject) (ho : c.node? object.id = some object)
    (crossed : anchorPoints? subject object = some ends) :
    ∃ feed, c.completeEdge object.id =
      ({ c with
          diagram := c.diagram.modifyEdge e.id fun e =>
            { e with
              subject := .anchored subject.id ends.1
              object := .anchored object.id ends.2
              complete := true }
          completing := false
          feed := feed }, .ok (.completed e.id)) := by
  refine ⟨(c.completeEdge object.id).1.feed, ?_⟩
  simp only [completeEdge, drawn, starts, hs, ho, crossed]
  rfl

/-- If it does not meet the outline, it goes on being drawn. -/
theorem completeEdge_of_uncrossed {e : Edge α} {subject object : Node α}
    (drawn : c.diagram.incompleteEdge? = some e) (starts : e.subject.node? = some subject.id)
    (hs : c.node? subject.id = some subject) (ho : c.node? object.id = some object)
    (uncrossed : anchorPoints? subject object = none) :
    c.completeEdge object.id = (c, .ok (.pending e.id)) := by
  simp only [completeEdge, drawn, starts, hs, ho, uncrossed]

end QueryCanvas.Canvas
