/-
  QueryCanvas.Proofs.Canvas.Feed

  What each operation tells the subscriber.

  `Told` lists what can be said about one operation: the events in their order,
  and what they are about. `tells_perform` says once, operation by operation,
  that this is what is appended to the feed. A changed diagram is always
  announced after the last change. The selection is announced whenever it shows
  something else, but for one case (`Misses`): the class of the selected node is
  inferred, and its kind follows.
-/

import QueryCanvas.Proofs.Canvas.Shown

namespace QueryCanvas.Canvas

variable {α : Type}

/-! ## What can be told -/

/-- The operation that changes what the selected node shows without announcing the selection. -/
inductive Misses (c : Canvas α) : Operation α → Prop
  /-- A selected variable becomes an amalgam, or an amalgam becomes a variable. -/
  | inferClass {id : NodeId} {n : Node α} (label : String) (merged : Bool)
      (found : c.node? id = some n) (inferable : n.kind.isInferable = true)
      (selected : c.selected = some (.node id))
      (differs : n.kind ≠ if merged then .amalgam else .unboundVariable) :
      Misses c (.inferClass id label merged)

/-- What the subscriber is told when an operation makes one canvas of another. -/
inductive Told (c : Canvas α) (operation : Operation α) (c' : Canvas α) : List (Event α) → Prop
  | nothing (diagram : c'.diagram = c.diagram) (shows : c'.selection? = c.selection?) :
      Told c operation c' []
  | diagram (shows : c'.selection? = c.selection?) :
      Told c operation c' [.diagramChanged c'.diagram]
  | selection {shown : Selection} (diagram : c'.diagram = c.diagram)
      (shows : c'.selection? = some shown) : Told c operation c' [.selectionChanged shown]
  | cleared (diagram : c'.diagram = c.diagram) (shows : c'.selection? = none) :
      Told c operation c' [.selectionCleared]
  | diagramThenSelection {shown : Selection} (shows : c'.selection? = some shown) :
      Told c operation c' [.diagramChanged c'.diagram, .selectionChanged shown]
  | clearedThenDiagram (shows : c'.selection? = none) :
      Told c operation c' [.selectionCleared, .diagramChanged c'.diagram]
  /-- The selection shows something else, and only the diagram is announced. -/
  | missed (misses : Misses c operation) (shows : c'.selection? ≠ c.selection?) :
      Told c operation c' [.diagramChanged c'.diagram]

/-- What is told is appended to the feed. -/
def Tells (c : Canvas α) (operation : Operation α) (c' : Canvas α) : Prop :=
  ∃ news, c'.feed = c.feed.map (· ++ news) ∧ Told c operation c' news

/-! ## Telling step by step -/

theorem selection?_congr {c c' : Canvas α} (selected : c'.selected = c.selected)
    (shows : ∀ element, c.selected = some element →
      c'.diagram.describe? element = c.diagram.describe? element) :
    c'.selection? = c.selection? := by
  rw [selection?, selection?, selected]
  cases h : c.selected with
  | none => rfl
  | some element => exact shows element h

variable {c s : Canvas α} {operation : Operation α}

/-- The selection that is shown is that of the selected element. -/
theorem selected_of_selection? {shown : Selection} (h : c.selection? = some shown) :
    c.selected = some shown.element := by
  obtain ⟨element, hselected, hshown⟩ := Option.bind_eq_some_iff.1 h
  rw [hselected, Diagram.element_of_describe? hshown]

theorem WellFormed.exists_selection? (h : c.WellFormed) {element : ElementRef}
    (selected : c.selected = some element) :
    ∃ shown, c.selection? = some shown ∧ shown.element = element := by
  obtain ⟨shown, hshown⟩ := Option.isSome_iff_exists.1 (h.selected_exists element selected)
  refine ⟨shown, ?_, Diagram.element_of_describe? hshown⟩
  rw [selection?, selected]
  exact hshown

theorem tells_nothing (feed : s.feed = c.feed) (diagram : s.diagram = c.diagram)
    (selected : s.selected = c.selected) : Tells c operation s := by
  refine ⟨[], ?_, .nothing diagram ?_⟩
  · rw [feed]
    cases c.feed <;> simp
  · rw [selection?, selection?, selected, diagram]

theorem Tells.refl (c : Canvas α) (operation : Operation α) : Tells c operation c :=
  tells_nothing rfl rfl rfl

theorem tells_announce (feed : s.feed = c.feed) (shows : s.selection? = c.selection?) :
    Tells c operation s.announce := by
  refine ⟨[.diagramChanged s.diagram], ?_, .diagram shows⟩
  show s.feed.map _ = c.feed.map _
  rw [feed]

/-- A diagram that shows the selected element as before is announced, and that is all. -/
theorem tells_unseen (feed : s.feed = c.feed) (selected : s.selected = c.selected)
    (shows : ∀ element, c.selected = some element →
      s.diagram.describe? element = c.diagram.describe? element) :
    Tells c operation s.announce :=
  tells_announce feed (selection?_congr selected shows)

/-- An edge that keeps its kind and content shows what it has shown. -/
theorem tells_modifyEdge {id : EdgeId} {f : Edge α → Edge α} (feed : s.feed = c.feed)
    (selected : s.selected = c.selected) (diagram : s.diagram = c.diagram.modifyEdge id f)
    (keeps : ∀ e, (f e).id = e.id)
    (shows : ∀ e, (f e).content = e.content ∧ (f e).kind = e.kind) :
    Tells c operation s.announce := by
  refine tells_unseen feed selected fun element _ => ?_
  rw [diagram]
  exact Diagram.describe?_modifyEdge c.diagram id keeps element fun e _ _ _ => shows e

/-- Announcing the selection after the diagram says all there is to say, if no other element
    shows something else. -/
theorem tells_reannounce {element : ElementRef} (feed : s.feed = c.feed)
    (selected : s.selected = c.selected) (found : (s.diagram.describe? element).isSome)
    (others : ∀ other, other ≠ element →
      s.diagram.describe? other = c.diagram.describe? other) :
    Tells c operation (s.announce.reannounce element) := by
  by_cases h : s.selected = some element
  · obtain ⟨shown, hshown⟩ := Option.isSome_iff_exists.1 found
    have htold : s.announce.reannounce element = s.announce.emit (.selectionChanged shown) := by
      have hselected : s.announce.selected = some element := h
      have hdescribe : s.announce.diagram.describe? element = some shown := hshown
      rw [reannounce, if_pos hselected, hdescribe]
    refine ⟨[.diagramChanged s.diagram, .selectionChanged shown], ?_, ?_⟩
    · rw [htold, ← feed]
      simp [announce, emit, Function.comp_def]
    · rw [htold]
      refine .diagramThenSelection ?_
      show s.selected.bind s.diagram.describe? = some shown
      rw [h]
      exact hshown
  · have htold : s.announce.reannounce element = s.announce := if_neg h
    rw [htold]
    refine tells_unseen feed selected fun other hother => ?_
    refine others other ?_
    rintro rfl
    exact h (selected.trans hother)

theorem tells_clearSelection (feed : s.feed = c.feed) (selected : s.selected = c.selected) :
    Tells c operation s.clearSelection.announce := by
  cases h : s.selected with
  | none =>
    -- nothing is selected, and nothing was
    have hclear : s.clearSelection = s := by simp [clearSelection, h]
    rw [hclear]
    refine tells_announce feed ?_
    rw [selection?, selection?, ← selected, h]
    rfl
  | some element =>
    have hclear : s.clearSelection = { s with selected := none }.emit .selectionCleared := by
      simp [clearSelection, h]
    refine ⟨[.selectionCleared, .diagramChanged s.diagram], ?_, ?_⟩
    · rw [hclear, ← feed]
      simp [announce, emit, Function.comp_def]
    · rw [hclear]
      exact .clearedThenDiagram rfl

/-- Elements that are added change nothing that the selection shows. -/
theorem WellFormed.tells_append (h : c.WellFormed) (nodes : List (Node α)) (edges : List (Edge α))
    (feed : s.feed = c.feed) (selected : s.selected = c.selected)
    (diagram : s.diagram = ⟨c.diagram.nodes ++ nodes, c.diagram.edges ++ edges⟩) :
    Tells c operation s.announce := by
  refine tells_unseen feed selected fun element helement => ?_
  rw [diagram]
  exact Diagram.describe?_append (h.selected_exists element helement) nodes edges

theorem select_of_shown {element : ElementRef} {shown : Selection}
    (h : c.diagram.describe? element = some shown) :
    (c.select element).1 =
      { c with selected := some element }.emit (.selectionChanged shown) := by
  rw [select, h]

/-! ## Operations that place nothing -/

theorem tells_setClass (id : NodeId) (inferredClass : Option String) :
    Tells c operation (c.setClass id inferredClass).1 := by
  unfold setClass
  split
  · exact .refl c operation
  · refine tells_unseen rfl rfl fun element _ => ?_
    refine Diagram.describe?_modifyNode c.diagram id ?_ element fun _ _ _ _ => ?_
    · exact fun _ => rfl
    · exact ⟨rfl, rfl⟩

theorem tells_deleteNode (id : NodeId) : Tells c operation (c.deleteNode id).1 := by
  cases found : c.node? id with
  | none =>
    have hrefused : (c.deleteNode id).1 = c := by simp [deleteNode, found]
    rw [hrefused]
    exact .refl c operation
  | some n =>
    rcases deleteNode_cases found with ⟨hdelete, -⟩ | ⟨hdelete, stays⟩
    · rw [hdelete]
      exact tells_clearSelection rfl rfl
    · -- what is selected stays
      rw [hdelete]
      refine tells_unseen rfl rfl fun element helement => ?_
      refine Diagram.describe?_filter c.diagram element (fun m _ hm => ?_) fun e he heq => ?_
      · have hne : m.id ≠ id := by
          rintro rfl
          exact stays (.inl (helement.trans (congrArg some hm)))
        simpa using hne
      · have hne : e.touches id = false := by
          rw [Bool.eq_false_iff]
          exact fun ht => stays (.inr ⟨e, he, ht, helement.trans (congrArg some heq)⟩)
        rw [hne]
        rfl

theorem tells_followPointer (pointer : Point α) :
    Tells c operation (c.followPointer pointer) := by
  unfold followPointer
  split
  · split
    · exact .refl c operation
    · exact tells_modifyEdge rfl rfl rfl (fun _ => rfl) fun _ => ⟨rfl, rfl⟩
  · exact .refl c operation

theorem tells_updateEdge (id : EdgeId) (content : String) :
    Tells c operation (c.updateEdge id content).1 := by
  unfold updateEdge
  split
  · exact .refl c operation
  next e found =>
  refine tells_reannounce (s := { c with
    diagram := c.diagram.modifyEdge id fun e =>
      { e with kind := .ofContent content, content := content } }) rfl rfl ?_ fun other hother => ?_
  · have hmem : id ∈ c.diagram.edges.map Edge.id :=
      Diagram.isSome_edge?_iff.1 (Option.isSome_iff_exists.2 ⟨e, found⟩)
    have hframe := SameFrame.modifyEdge c.diagram id
      (f := fun e => { e with kind := .ofContent content, content := content }) fun _ _ _ => rfl
    rw [hframe.isSome_describe?]
    exact Diagram.isSome_describe?_edge.2 hmem
  · refine Diagram.describe?_modifyEdge c.diagram id ?_ other fun _ _ _ helement => ?_
    · exact fun _ => rfl
    · exact absurd helement hother

theorem tells_setOptional (id : EdgeId) (value : Bool) :
    Tells c operation (c.setOptional id value).1 := by
  unfold setOptional
  split
  · exact .refl c operation
  next e found =>
  dsimp only
  split
  · exact .refl c operation
  refine tells_unseen rfl rfl fun element _ => ?_
  -- marks are not shown
  let marked := c.diagram.modifyEdge id fun e => { e with isOptional := value }
  have hedge : marked.describe? element = c.diagram.describe? element := by
    refine Diagram.describe?_modifyEdge c.diagram id ?_ element fun _ _ _ _ => ?_
    · exact fun _ => rfl
    · exact ⟨rfl, rfl⟩
  rw [← hedge]
  refine Diagram.describe?_mapNodes marked (fun n => ?_) element fun n _ _ => ?_
  · split <;> rfl
  · split <;> exact ⟨rfl, rfl⟩

theorem tells_deleteEdge (id : EdgeId) : Tells c operation (c.deleteEdge id).1 := by
  unfold deleteEdge
  split
  · exact .refl c operation
  next e found =>
  dsimp only
  split
  · exact tells_clearSelection rfl rfl
  next other =>
  refine tells_unseen rfl rfl fun element helement => ?_
  have hstays : ∀ e ∈ c.diagram.edges, element = .edge e.id → decide (e.id ≠ id) = true := by
    intro e _ heq
    have hne : e.id ≠ id := by
      rintro rfl
      exact other (helement.trans (congrArg some heq))
    simpa using hne
  have hfilter := Diagram.describe?_filter c.diagram (p := fun _ => true) element
    (fun _ _ _ => rfl) hstays
  rwa [List.filter_true] at hfilter

theorem tells_select (element : ElementRef) : Tells c operation (c.select element).1 := by
  cases h : c.diagram.describe? element with
  | none =>
    have hrefused : (c.select element).1 = c := by rw [select, h]
    rw [hrefused]
    exact .refl c operation
  | some shown =>
    rw [select_of_shown h]
    exact ⟨[.selectionChanged shown], rfl, .selection rfl h⟩

theorem tells_dropSelection : Tells c operation c.clearSelection := by
  cases h : c.selected with
  | none =>
    have hclear : c.clearSelection = c := by simp [clearSelection, h]
    rw [hclear]
    exact .refl c operation
  | some element =>
    have hclear : c.clearSelection = { c with selected := none }.emit .selectionCleared := by
      simp [clearSelection, h]
    rw [hclear]
    exact ⟨[.selectionCleared], rfl, .cleared rfl rfl⟩

/-! ## Operations that place something -/

variable [Scalar α]

theorem tells_createNode (h : c.WellFormed) (position : Point α) (kind : NodeKind)
    (content : String) : Tells c operation (c.createNode position kind content).1 := by
  let added : Canvas α := { c with
    diagram := { c.diagram with nodes := c.diagram.nodes ++ [c.freshNode position kind content] }
    nextNode := c.nextNode + 1 }
  by_cases hkind : kind = .placeholder
  · have hcreate : (c.createNode position kind content).1 = added.announce := by
      simp only [createNode, if_pos hkind]
      rfl
    rw [hcreate]
    exact h.tells_append [c.freshNode position kind content] [] rfl rfl
      (by rw [List.append_nil])
  · -- the node that was added is selected, and announced after the diagram
    have hcreate : (c.createNode position kind content).1 =
        (added.announce.select (.node ⟨c.nextNode⟩)).1 := by
      simp only [createNode, if_neg hkind]
      rfl
    have hmem : (⟨c.nextNode⟩ : NodeId) ∈ added.diagram.nodes.map Node.id := by
      simp [added, freshNode]
    obtain ⟨shown, hshown⟩ :=
      Option.isSome_iff_exists.1 (Diagram.isSome_describe?_node.2 hmem)
    rw [hcreate, select_of_shown (c := added.announce) hshown]
    refine ⟨[.diagramChanged added.diagram, .selectionChanged shown], ?_,
      .diagramThenSelection hshown⟩
    simp [announce, emit, added, Function.comp_def]

theorem tells_recast {id : NodeId} {n : Node α} (found : c.node? id = some n)
    {change : Node α → Node α} (keeps : ∀ n, (change n).id = n.id) :
    Tells c operation (c.recast id change) := by
  refine tells_reannounce (s := { c with
    diagram := (c.diagram.modifyNode id fun n => (change n).reshaped c.sizes).reanchor id })
    rfl rfl ?_ fun other hother => ?_
  · have hframe := SameFrame.modifyNode_reanchor c.diagram id
      (f := fun n => (change n).reshaped c.sizes) keeps
    rw [hframe.isSome_describe?, Diagram.describe?, show c.diagram.node? id = some n from found]
    rfl
  · rw [Diagram.describe?_reanchor]
    refine Diagram.describe?_modifyNode c.diagram id ?_ other fun _ _ _ helement => ?_
    · exact keeps
    · exact absurd helement hother

theorem tells_updateNode (id : NodeId) (content : String) :
    Tells c operation (c.updateNode id content).1 := by
  unfold updateNode
  split
  · exact .refl c operation
  · next n found =>
    refine tells_recast found ?_
    exact fun _ => rfl

theorem tells_assignNode (id : NodeId) (kind : NodeKind) (content : String)
    (inferredClass : Option String) :
    Tells c operation (c.assignNode id kind content inferredClass).1 := by
  unfold assignNode
  split
  · exact .refl c operation
  · next n found =>
    refine tells_recast found ?_
    exact fun _ => rfl

/-- An operation that misses the selection tells what the diagram looks like, and nothing else. -/
theorem Misses.told (misses : Misses c operation) :
    (c.perform operation).1.feed =
        c.feed.map (· ++ [.diagramChanged (c.perform operation).1.diagram]) ∧
      (c.perform operation).1.selection? ≠ c.selection? := by
  cases misses with
  | @inferClass id n label merged found inferable selected differs =>
    let kind : NodeKind := if merged then .amalgam else .unboundVariable
    let record (n : Node α) : Node α :=
      ({ n with inferredClass := some label, kind := kind } : Node α).reshaped c.sizes
    let s : Canvas α := { c with diagram := c.diagram.modifyNode id record }
    have hinfer : (c.perform (.inferClass id label merged)).1 = s.announce := by
      show (c.inferClass id label merged).1 = s.announce
      simp only [Canvas.inferClass, found, if_pos inferable]
      rfl
    have hbefore : c.selection? = some ⟨.node id, n.content, .node n.kind⟩ := by
      rw [selection?, selected]
      simp [Diagram.describe?, show c.diagram.node? id = some n from found]
    have hafter : s.selection? = some ⟨.node id, n.content, .node kind⟩ := by
      rw [selection?, show s.selected = some (.node id) from selected]
      exact Diagram.describe?_modifyNode_self found (f := record) fun _ => rfl
    rw [hinfer]
    refine ⟨rfl, ?_⟩
    show s.selection? ≠ c.selection?
    rw [hafter, hbefore]
    intro heq
    have hsame : kind = n.kind := by simpa using heq
    exact differs hsame.symm

theorem tells_inferClass (h : c.WellFormed) (id : NodeId) (label : String) (merged : Bool) :
    Tells c (.inferClass id label merged) (c.inferClass id label merged).1 := by
  by_cases misses : Misses c (.inferClass id label merged)
  · obtain ⟨hfeed, hshows⟩ := misses.told
    exact ⟨_, hfeed, .missed misses hshows⟩
  unfold inferClass
  split
  · exact .refl c _
  next n found =>
  split
  swap
  · exact .refl c _
  next inferable =>
  refine tells_unseen rfl rfl fun element helement => ?_
  refine Diagram.describe?_modifyNode c.diagram id ?_ element fun m hm hid hnode => ?_
  · exact fun _ => rfl
  · -- the selected node keeps its kind, or the change of kind would be missed
    obtain rfl := h.eq_of_node? hm hid found
    refine ⟨rfl, ?_⟩
    by_contra hkind
    rw [hnode] at helement
    exact misses (.inferClass label merged found inferable helement fun heq => hkind heq.symm)

theorem tells_moveNode (id : NodeId) (position : Point α) :
    Tells c operation (c.moveNode id position).1 := by
  unfold moveNode
  split
  · exact .refl c operation
  · refine tells_unseen rfl rfl fun element _ => ?_
    show ((c.diagram.modifyNode id _).reanchor id).describe? element = _
    rw [Diagram.describe?_reanchor]
    refine Diagram.describe?_modifyNode c.diagram id ?_ element fun _ _ _ _ => ?_
    · exact fun _ => rfl
    · exact ⟨rfl, rfl⟩

theorem tells_startEdge (h : c.WellFormed) (subject : NodeId) (content : String) :
    Tells c operation (c.startEdge subject content).1 := by
  unfold startEdge
  split
  · exact .refl c operation
  · next n found =>
    split
    · exact .refl c operation
    · obtain rfl : n.id = subject := (Diagram.mem_of_node? found).2
      refine h.tells_append [] [c.drawnEdge n content] rfl rfl ?_
      rw [List.append_nil]
      rfl

theorem tells_completeEdge (destination : NodeId) :
    Tells c operation (c.completeEdge destination).1 := by
  unfold completeEdge
  split
  · exact .refl c operation
  next e _ =>
  split
  · exact .refl c operation
  split
  · exact .refl c operation
  split
  · exact .refl c operation
  split
  · exact .refl c operation
  -- the edge gets its ends, and keeps what it shows
  exact tells_modifyEdge rfl rfl rfl (fun _ => rfl) fun _ => ⟨rfl, rfl⟩

theorem tells_connect (h : c.WellFormed) (subject object : NodeId) (content : String) :
    Tells c operation (c.connect subject object content).1 := by
  unfold connect
  split
  · exact .refl c operation
  next s subjectFound =>
  split
  · exact .refl c operation
  next o objectFound =>
  obtain rfl : s.id = subject := (Diagram.mem_of_node? subjectFound).2
  obtain rfl : o.id = object := (Diagram.mem_of_node? objectFound).2
  refine h.tells_append [] [c.joiningEdge s o content] rfl rfl ?_
  rw [List.append_nil]
  rfl

/-! ## Every operation -/

/-- What is appended to the feed is what `Told` lists. -/
theorem tells_perform (h : c.WellFormed) (operation : Operation α) :
    Tells c operation (c.perform operation).1 := by
  cases operation with
  | createNode position kind content => exact tells_createNode h position kind content
  | updateNode node content => exact tells_updateNode node content
  | inferClass node label merged => exact tells_inferClass h node label merged
  | setClass node inferredClass => exact tells_setClass node inferredClass
  | assignNode node kind content inferredClass =>
    exact tells_assignNode node kind content inferredClass
  | moveNode node position => exact tells_moveNode node position
  | deleteNode node => exact tells_deleteNode node
  | startEdge subject content => exact tells_startEdge h subject content
  | followPointer pointer => exact tells_followPointer pointer
  | completeEdge destination => exact tells_completeEdge destination
  | connect subject object content => exact tells_connect h subject object content
  | updateEdge edge content => exact tells_updateEdge edge content
  | setOptional edge value => exact tells_setOptional edge value
  | deleteEdge edge => exact tells_deleteEdge edge
  | clear => exact tells_clearSelection rfl rfl
  | select element => exact tells_select element
  | clearSelection => exact tells_dropSelection
  | setMode mode => exact tells_nothing rfl rfl rfl
  | validate => exact .refl c .validate
  | click position hit =>
    -- a click is one of the operations before, by mode and place
    rw [perform_click]
    unfold clickOperation
    split
    · show Tells c _ (c.createNode position .unboundVariable Sparql.anonymous).1
      exact tells_createNode h _ _ _
    · exact tells_select _
    · exact tells_select _
    · split
      · exact tells_completeEdge _
      · exact tells_startEdge h _ _
    · exact tells_followPointer _
    · exact tells_dropSelection

/-- No operation sends the subscriber away. -/
theorem isKept_subscribed (allowed : Operation α → Prop) :
    IsKept allowed fun c => c.WellFormed ∧ c.feed.isSome where
  perform := fun {c operation} ⟨wf, subscribed⟩ _ => by
    obtain ⟨news, hfeed, -⟩ := tells_perform wf operation
    refine ⟨wf.step (step_perform c operation), ?_⟩
    rw [hfeed, Option.isSome_map]
    exact subscribed
  takeEvents := fun {c} ⟨wf, subscribed⟩ => by
    refine ⟨wf.of_sameFrame (.refl _) _, ?_⟩
    show (c.feed.map fun _ => []).isSome
    rw [Option.isSome_map]
    exact subscribed

end QueryCanvas.Canvas
