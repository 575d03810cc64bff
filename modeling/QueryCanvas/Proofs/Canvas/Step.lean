/-
  QueryCanvas.Proofs.Canvas.Step

  What each operation can make of a canvas.

  `Step` lists the outcomes of the operations once, with the guards under which
  they come about. Refusals, and whatever is only told to the subscriber, are
  one case, so that an invariant is looked at once for every way in which the
  diagram, the counters or the selection can change.
-/

import QueryCanvas.Canvas.Operation
import QueryCanvas.Proofs.Diagram.Frame

namespace QueryCanvas

variable {α : Type}

namespace Canvas

/-! ## Telling the subscriber -/

/-- Announcing the selection again changes the feed only. -/
theorem reannounce_eq (c : Canvas α) (element : ElementRef) :
    ∃ feed, c.reannounce element = { c with feed := feed } := by
  unfold reannounce
  split
  · split
    · exact ⟨_, rfl⟩
    · exact ⟨c.feed, rfl⟩
  · exact ⟨c.feed, rfl⟩

theorem clearSelection_eq (c : Canvas α) :
    ∃ feed, c.clearSelection = { c with selected := none, feed := feed } := by
  unfold clearSelection
  split
  · exact ⟨_, rfl⟩
  · next h =>
    have hnone : c.selected = none := by simpa using h
    exact ⟨c.feed, by rw [← hnone]⟩

theorem select_eq (c : Canvas α) (element : ElementRef) :
    (∃ feed, (c.select element).1 = { c with feed := feed }) ∨
    (c.diagram.describe? element).isSome ∧
      ∃ feed, (c.select element).1 = { c with selected := some element, feed := feed } := by
  unfold select
  split
  · exact .inl ⟨c.feed, rfl⟩
  · next h => exact .inr ⟨by simp [h], _, rfl⟩

end Canvas

variable [Scalar α]

/-! ## Clicks -/

namespace Canvas

/-- The operation that a click performs. -/
def clickOperation (c : Canvas α) (position : Point α) (hit : Option NodeId) : Operation α :=
  match c.mode, hit with
  | .placeNode, none => .createNode position .unboundVariable Sparql.anonymous
  | .drag, some node | .placeNode, some node => .select (.node node)
  | .drawEdge, some node =>
    if c.completing then .completeEdge node else .startEdge node Sparql.anonymous
  | .drawEdge, none => .followPointer position
  | .drag, none => .clearSelection

theorem perform_click (c : Canvas α) (position : Point α) (hit : Option NodeId) :
    (c.perform (.click position hit)).1 = (c.perform (c.clickOperation position hit)).1 := by
  cases hm : c.mode <;> cases hit <;> simp only [perform, click, clickOperation, hm, Prod.map]
  case drawEdge.some node => cases c.completing <;> rfl
  all_goals rfl

end Canvas

/-! ## Steps -/

/-- The node with the outline of its kind around its position. -/
def Node.reshaped (n : Node α) (sizes : ShapeSizes α) : Node α :=
  { n with shape := n.kind.shape n.position sizes }

/-- The nodes at the ends of an edge. -/
def Edge.nodes (e : Edge α) : List NodeId :=
  [e.subject.node?, e.object.node?].filterMap fun node => node

namespace Canvas

/-- The node that `createNode` adds. -/
def freshNode (c : Canvas α) (position : Point α) (kind : NodeKind) (content : String) : Node α :=
  ⟨⟨c.nextNode⟩, kind, content, position, kind.shape position c.sizes, false, none⟩

/-- The edge that `startEdge` adds at a node. -/
def drawnEdge (c : Canvas α) (subject : Node α) (content : String) : Edge α :=
  ⟨⟨c.nextEdge⟩, .ofContent content, content, .anchored subject.id subject.position,
    .free (subject.position.offset Scalar.one Scalar.one), false, false⟩

/-- The edge that `connect` adds between two nodes. -/
def joiningEdge (c : Canvas α) (subject object : Node α) (content : String) : Edge α :=
  let ends := (anchorPoints? subject object).getD (subject.position, object.position)
  ⟨⟨c.nextEdge⟩, .ofContent content, content, .anchored subject.id ends.1,
    .anchored object.id ends.2, false, true⟩

/-- What an operation can make of a canvas. -/
inductive Step (c : Canvas α) : Operation α → Canvas α → Prop
  /-- Nothing changed; something may have been announced. -/
  | quiet (operation : Operation α) (feed : Option (List (Event α))) :
      Step c operation { c with feed := feed }
  | createNode (position : Point α) (kind : NodeKind) (content : String)
      (selected : Option ElementRef) (feed : Option (List (Event α)))
      (kept : selected = c.selected ∨ selected = some (.node ⟨c.nextNode⟩)) :
      Step c (.createNode position kind content)
        { c with
          diagram := { c.diagram with
            nodes := c.diagram.nodes ++ [c.freshNode position kind content] }
          nextNode := c.nextNode + 1
          selected := selected
          feed := feed }
  | updateNode {id : NodeId} {n : Node α} (content : String) (feed : Option (List (Event α)))
      (found : c.node? id = some n) :
      Step c (.updateNode id content)
        { c with
          diagram := (c.diagram.modifyNode id fun n =>
            ({ n with kind := .ofContent content, content := content } : Node α).reshaped
              c.sizes).reanchor id
          feed := feed }
  | assignNode {id : NodeId} {n : Node α} (kind : NodeKind) (content : String)
      (inferredClass : Option String) (feed : Option (List (Event α)))
      (found : c.node? id = some n) :
      Step c (.assignNode id kind content inferredClass)
        { c with
          diagram := (c.diagram.modifyNode id fun n =>
            ({ n with kind := kind, content := content, inferredClass := inferredClass } :
              Node α).reshaped c.sizes).reanchor id
          feed := feed }
  | inferClass {id : NodeId} {n : Node α} (label : String) (merged : Bool)
      (feed : Option (List (Event α))) (found : c.node? id = some n)
      (inferable : n.kind.isInferable) :
      Step c (.inferClass id label merged)
        { c with
          diagram := c.diagram.modifyNode id fun n =>
            ({ n with
                inferredClass := some label
                kind := if merged then .amalgam else .unboundVariable } : Node α).reshaped c.sizes
          feed := feed }
  | setClass {id : NodeId} {n : Node α} (inferredClass : Option String)
      (feed : Option (List (Event α))) (found : c.node? id = some n) :
      Step c (.setClass id inferredClass)
        { c with
          diagram := c.diagram.modifyNode id fun n => { n with inferredClass := inferredClass }
          feed := feed }
  | moveNode {id : NodeId} {n : Node α} (position : Point α) (feed : Option (List (Event α)))
      (found : c.node? id = some n) :
      Step c (.moveNode id position)
        { c with
          diagram := (c.diagram.modifyNode id fun n =>
            { n with position := position, shape := n.shape.movedTo position }).reanchor id
          feed := feed }
  | deleteNode {id : NodeId} {n : Node α} (selected : Option ElementRef)
      (feed : Option (List (Event α))) (found : c.node? id = some n)
      (kept : selected = none ∨ selected = c.selected ∧ c.selected ≠ some (.node id) ∧
        ∀ e ∈ c.diagram.edges, e.touches id → c.selected ≠ some (.edge e.id)) :
      Step c (.deleteNode id)
        { c with
          diagram := ⟨c.diagram.nodes.filter (·.id ≠ id),
            c.diagram.edges.filter (!·.touches id)⟩
          completing := (c.diagram.edges.filter (!·.touches id)).any (!·.complete)
          selected := selected
          feed := feed }
  | startEdge {id : NodeId} {n : Node α} (content : String) (feed : Option (List (Event α)))
      (found : c.node? id = some n) (idle : c.diagram.incompleteEdge? = none) :
      Step c (.startEdge id content)
        { c with
          diagram := { c.diagram with edges := c.diagram.edges ++ [c.drawnEdge n content] }
          nextEdge := c.nextEdge + 1
          completing := true
          feed := feed }
  | followPointer {e : Edge α} (pointer : Point α) (feed : Option (List (Event α)))
      (drawn : c.diagram.incompleteEdge? = some e) :
      Step c (.followPointer pointer)
        { c with
          diagram := c.diagram.modifyEdge e.id fun e => { e with object := .free pointer }
          feed := feed }
  | completeEdge {e : Edge α} {subject object : Node α} {ends : Point α × Point α}
      (feed : Option (List (Event α))) (drawn : c.diagram.incompleteEdge? = some e)
      (starts : e.subject.node? = some subject.id)
      (subjectFound : c.node? subject.id = some subject)
      (objectFound : c.node? object.id = some object)
      (crossed : anchorPoints? subject object = some ends) :
      Step c (.completeEdge object.id)
        { c with
          diagram := c.diagram.modifyEdge e.id fun e =>
            { e with
              subject := .anchored subject.id ends.1
              object := .anchored object.id ends.2
              complete := true }
          completing := false
          feed := feed }
  | connect {subject object : Node α} (content : String) (feed : Option (List (Event α)))
      (subjectFound : c.node? subject.id = some subject)
      (objectFound : c.node? object.id = some object) :
      Step c (.connect subject.id object.id content)
        { c with
          diagram := { c.diagram with
            edges := c.diagram.edges ++ [c.joiningEdge subject object content] }
          nextEdge := c.nextEdge + 1
          feed := feed }
  | updateEdge {id : EdgeId} {e : Edge α} (content : String) (feed : Option (List (Event α)))
      (found : c.edge? id = some e) :
      Step c (.updateEdge id content)
        { c with
          diagram := c.diagram.modifyEdge id fun e =>
            { e with kind := .ofContent content, content := content }
          feed := feed }
  | setOptional {id : EdgeId} {e : Edge α} (value : Bool) (feed : Option (List (Event α)))
      (found : c.edge? id = some e) :
      Step c (.setOptional id value)
        { c with
          diagram :=
            { c.diagram.modifyEdge id fun e => { e with isOptional := value } with
              nodes := c.diagram.nodes.map fun n =>
                if e.nodes.contains n.id then { n with isOptional := value } else n }
          feed := feed }
  | deleteEdge {id : EdgeId} {e : Edge α} (selected : Option ElementRef)
      (feed : Option (List (Event α))) (found : c.edge? id = some e)
      (kept : selected = none ∨ selected = c.selected ∧ c.selected ≠ some (.edge id)) :
      Step c (.deleteEdge id)
        { c with
          diagram := { c.diagram with edges := c.diagram.edges.filter (·.id ≠ id) }
          completing := e.complete && c.completing
          selected := selected
          feed := feed }
  | clear (feed : Option (List (Event α))) :
      Step c .clear
        { c with diagram := .empty, completing := false, selected := none, feed := feed }
  | select {element : ElementRef} (feed : Option (List (Event α)))
      (shown : (c.diagram.describe? element).isSome) :
      Step c (.select element) { c with selected := some element, feed := feed }
  | clearSelection (feed : Option (List (Event α))) :
      Step c .clearSelection { c with selected := none, feed := feed }
  | setMode (mode : Mode) : Step c (.setMode mode) { c with mode := mode }
  /-- A click does what the operation does that it stands for. -/
  | click {position : Point α} {hit : Option NodeId} {c' : Canvas α}
      (performed : Step c (c.clickOperation position hit) c') : Step c (.click position hit) c'

/-! ## Every operation is a step -/

theorem step_createNode (c : Canvas α) (position : Point α) (kind : NodeKind) (content : String) :
    Step c (.createNode position kind content) (c.createNode position kind content).1 := by
  simp only [createNode]
  split
  -- a placeholder is not selected
  · exact .createNode position kind content c.selected _ (.inl rfl)
  -- any other node is, after it has been announced
  · rcases select_eq _ (.node ⟨c.nextNode⟩) with ⟨feed, h⟩ | ⟨-, feed, h⟩
    · rw [h]
      exact .createNode position kind content c.selected feed (.inl rfl)
    · rw [h]
      exact .createNode position kind content _ feed (.inr rfl)

theorem recast_eq (c : Canvas α) (id : NodeId) (change : Node α → Node α) :
    ∃ feed, c.recast id change =
      { c with
        diagram := (c.diagram.modifyNode id fun n => (change n).reshaped c.sizes).reanchor id
        feed := feed } := by
  obtain ⟨feed, h⟩ := reannounce_eq _ (.node id)
  exact ⟨feed, h⟩

theorem step_updateNode (c : Canvas α) (id : NodeId) (content : String) :
    Step c (.updateNode id content) (c.updateNode id content).1 := by
  unfold updateNode
  split
  · exact .quiet _ c.feed
  · next h =>
    dsimp only
    obtain ⟨feed, hfeed⟩ := c.recast_eq id fun n =>
      { n with kind := .ofContent content, content := content }
    rw [hfeed]
    exact .updateNode content feed h

theorem step_assignNode (c : Canvas α) (id : NodeId) (kind : NodeKind) (content : String)
    (inferredClass : Option String) :
    Step c (.assignNode id kind content inferredClass)
      (c.assignNode id kind content inferredClass).1 := by
  unfold assignNode
  split
  · exact .quiet _ c.feed
  · next h =>
    dsimp only
    obtain ⟨feed, hfeed⟩ := c.recast_eq id fun n =>
      { n with kind := kind, content := content, inferredClass := inferredClass }
    rw [hfeed]
    exact .assignNode kind content inferredClass feed h

theorem step_inferClass (c : Canvas α) (id : NodeId) (label : String) (merged : Bool) :
    Step c (.inferClass id label merged) (c.inferClass id label merged).1 := by
  unfold inferClass
  split
  · exact .quiet _ c.feed
  · next h =>
    split
    · next inferable => exact .inferClass label merged _ h inferable
    · exact .quiet _ c.feed

theorem step_setClass (c : Canvas α) (id : NodeId) (inferredClass : Option String) :
    Step c (.setClass id inferredClass) (c.setClass id inferredClass).1 := by
  unfold setClass
  split
  · exact .quiet _ c.feed
  · next h => exact .setClass inferredClass _ h

theorem step_moveNode (c : Canvas α) (id : NodeId) (position : Point α) :
    Step c (.moveNode id position) (c.moveNode id position).1 := by
  unfold moveNode
  split
  · exact .quiet _ c.feed
  · next h => exact .moveNode position _ h

/-- The canvas without a node and the edges at it, before anything is told. -/
def withoutNode (c : Canvas α) (id : NodeId) : Canvas α :=
  { c with
    diagram := ⟨c.diagram.nodes.filter (·.id ≠ id), c.diagram.edges.filter (!·.touches id)⟩
    completing := (c.diagram.edges.filter (!·.touches id)).any (!·.complete) }

/-- The selected element goes with a node: it is the node, or an edge at it. -/
def SelectionGoes (c : Canvas α) (id : NodeId) : Prop :=
  c.selected = some (.node id) ∨
    ∃ e ∈ c.diagram.edges, e.touches id ∧ c.selected = some (.edge e.id)

omit [Scalar α] in
/-- Deleting a node drops the selection exactly if it names something that goes. -/
theorem deleteNode_cases {c : Canvas α} {id : NodeId} {n : Node α} (found : c.node? id = some n) :
    (c.deleteNode id).1 = (c.withoutNode id).clearSelection.announce ∧ c.SelectionGoes id ∨
    (c.deleteNode id).1 = (c.withoutNode id).announce ∧ ¬ c.SelectionGoes id := by
  have hcases : ∀ gone : Bool, (gone = true ↔ c.SelectionGoes id) →
      let told := (if gone then (c.withoutNode id).clearSelection else c.withoutNode id).announce
      told = (c.withoutNode id).clearSelection.announce ∧ c.SelectionGoes id ∨
      told = (c.withoutNode id).announce ∧ ¬ c.SelectionGoes id := by
    intro gone hgone
    cases gone with
    | false => exact .inr ⟨rfl, fun hgoes => by cases hgone.2 hgoes⟩
    | true => exact .inl ⟨rfl, hgone.1 rfl⟩
  unfold deleteNode
  simp only [found]
  refine hcases _ ?_
  -- what is selected is the node, or an edge that is in the list of removed edges
  unfold SelectionGoes
  cases hs : c.selected with
  | none => simp
  | some element =>
    cases element with
    | node m => simp
    | edge e => simp [and_assoc, @eq_comm _ e]

theorem step_deleteNode (c : Canvas α) (id : NodeId) :
    Step c (.deleteNode id) (c.deleteNode id).1 := by
  cases h : c.node? id with
  | none =>
    have hrefused : (c.deleteNode id).1 = c := by simp [deleteNode, h]
    rw [hrefused]
    exact .quiet _ c.feed
  | some n =>
    rcases deleteNode_cases h with ⟨hdelete, -⟩ | ⟨hdelete, stays⟩
    · obtain ⟨feed, hfeed⟩ := (c.withoutNode id).clearSelection_eq
      rw [hdelete, hfeed]
      exact .deleteNode none _ h (.inl rfl)
    · rw [hdelete]
      refine .deleteNode c.selected _ h (.inr ⟨rfl, fun hnode => stays (.inl hnode), ?_⟩)
      exact fun e he htouches hedge => stays (.inr ⟨e, he, htouches, hedge⟩)

theorem step_startEdge (c : Canvas α) (subject : NodeId) (content : String) :
    Step c (.startEdge subject content) (c.startEdge subject content).1 := by
  unfold startEdge
  split
  · exact .quiet _ c.feed
  · next n h =>
    split
    · exact .quiet _ c.feed
    · next idle =>
      obtain rfl : n.id = subject := (Diagram.mem_of_node? h).2
      exact .startEdge content _ h (by simpa using idle)

theorem step_followPointer (c : Canvas α) (pointer : Point α) :
    Step c (.followPointer pointer) (c.followPointer pointer) := by
  unfold followPointer
  split
  · split
    · exact .quiet _ c.feed
    · next h => exact .followPointer pointer _ h
  · exact .quiet _ c.feed

theorem step_completeEdge (c : Canvas α) (destination : NodeId) :
    Step c (.completeEdge destination) (c.completeEdge destination).1 := by
  unfold completeEdge
  split
  · exact .quiet _ c.feed
  next e drawn =>
  split
  · exact .quiet _ c.feed
  next subjectId starts =>
  split
  · exact .quiet _ c.feed
  next subject subjectFound =>
  split
  · exact .quiet _ c.feed
  next object objectFound =>
  split
  · exact .quiet _ c.feed
  next s o crossed =>
  -- all look-ups have succeeded
  obtain rfl : subject.id = subjectId := (Diagram.mem_of_node? subjectFound).2
  obtain rfl : object.id = destination := (Diagram.mem_of_node? objectFound).2
  exact .completeEdge _ drawn starts subjectFound objectFound crossed

theorem step_connect (c : Canvas α) (subject object : NodeId) (content : String) :
    Step c (.connect subject object content) (c.connect subject object content).1 := by
  unfold connect
  split
  · exact .quiet _ c.feed
  next s subjectFound =>
  split
  · exact .quiet _ c.feed
  next o objectFound =>
  obtain rfl : s.id = subject := (Diagram.mem_of_node? subjectFound).2
  obtain rfl : o.id = object := (Diagram.mem_of_node? objectFound).2
  exact .connect content _ subjectFound objectFound

theorem step_updateEdge (c : Canvas α) (id : EdgeId) (content : String) :
    Step c (.updateEdge id content) (c.updateEdge id content).1 := by
  unfold updateEdge
  split
  · exact .quiet _ c.feed
  · next h =>
    dsimp only
    obtain ⟨feed, hfeed⟩ := reannounce_eq
      ({ c with
          diagram := c.diagram.modifyEdge id fun e =>
            { e with kind := .ofContent content, content := content } } : Canvas α).announce
      (.edge id)
    rw [hfeed]
    exact .updateEdge content feed h

theorem step_setOptional (c : Canvas α) (id : EdgeId) (value : Bool) :
    Step c (.setOptional id value) (c.setOptional id value).1 := by
  unfold setOptional
  split
  · exact .quiet _ c.feed
  · next h =>
    dsimp only
    split
    · exact .quiet _ c.feed
    · exact .setOptional value _ h

theorem step_deleteEdge (c : Canvas α) (id : EdgeId) :
    Step c (.deleteEdge id) (c.deleteEdge id).1 := by
  unfold deleteEdge
  split
  · exact .quiet _ c.feed
  · next e h =>
    dsimp only
    split
    · obtain ⟨feed, hfeed⟩ := clearSelection_eq
        ({ c with
            diagram := { c.diagram with edges := c.diagram.edges.filter (·.id ≠ id) }
            completing := e.complete && c.completing } : Canvas α)
      rw [hfeed]
      exact .deleteEdge none _ h (.inl rfl)
    · next kept => exact .deleteEdge c.selected _ h (.inr ⟨rfl, kept⟩)

theorem step_clear (c : Canvas α) : Step c .clear c.clear := by
  unfold clear
  obtain ⟨feed, hfeed⟩ := clearSelection_eq
    ({ c with diagram := .empty, completing := false } : Canvas α)
  rw [hfeed]
  exact .clear _

theorem step_select (c : Canvas α) (element : ElementRef) :
    Step c (.select element) (c.select element).1 := by
  rcases c.select_eq element with ⟨feed, h⟩ | ⟨shown, feed, h⟩
  · exact h ▸ .quiet _ feed
  · exact h ▸ .select feed shown

theorem step_clearSelection (c : Canvas α) : Step c .clearSelection c.clearSelection := by
  obtain ⟨feed, h⟩ := c.clearSelection_eq
  exact h ▸ .clearSelection feed

/-- Whatever an operation makes of a canvas is one of the steps. -/
theorem step_perform (c : Canvas α) (operation : Operation α) :
    Step c operation (c.perform operation).1 := by
  cases operation with
  | createNode position kind content => exact c.step_createNode position kind content
  | updateNode node content => exact c.step_updateNode node content
  | inferClass node label merged => exact c.step_inferClass node label merged
  | setClass node inferredClass => exact c.step_setClass node inferredClass
  | assignNode node kind content inferredClass =>
    exact c.step_assignNode node kind content inferredClass
  | moveNode node position => exact c.step_moveNode node position
  | deleteNode node => exact c.step_deleteNode node
  | startEdge subject content => exact c.step_startEdge subject content
  | followPointer pointer => exact c.step_followPointer pointer
  | completeEdge destination => exact c.step_completeEdge destination
  | connect subject object content => exact c.step_connect subject object content
  | updateEdge edge content => exact c.step_updateEdge edge content
  | setOptional edge value => exact c.step_setOptional edge value
  | deleteEdge edge => exact c.step_deleteEdge edge
  | clear => exact c.step_clear
  | select element => exact c.step_select element
  | clearSelection => exact c.step_clearSelection
  | setMode mode => exact .setMode mode
  | validate => exact .quiet _ c.feed
  | click position hit =>
    -- no click stands for another click
    rw [perform_click]
    apply Step.click
    unfold clickOperation
    split
    · exact c.step_createNode _ _ _
    · exact c.step_select _
    · exact c.step_select _
    · split
      · exact c.step_completeEdge _
      · exact c.step_startEdge _ _
    · exact c.step_followPointer _
    · exact c.step_clearSelection

end Canvas

end QueryCanvas
