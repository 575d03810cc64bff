/-
  QueryCanvas.Proofs.Canvas.Identity

  Identities are handed out once, and elements keep theirs.

  An operation hands out nothing, or the next identity of a node or of an edge,
  and answers with it (`Issues`). What is handed out is what is new on the
  canvas (`Issues.eq_some_iff`). With what becomes of a canvas in the course of
  time, this gives `Reachable.elements_keep_identity`.
-/

import QueryCanvas.Proofs.Canvas.Evolution

namespace QueryCanvas

variable {α : Type}

namespace Canvas

variable {c d : Canvas α}

/-! ## What is handed out -/

/-- The element that an answer hands out. -/
def created? (answer : Except CanvasError Reply) : Option ElementRef :=
  match answer with
  | .ok (.node id) | .ok (.clicked (.nodeCreated id)) => some (.node id)
  | .ok (.edge id) | .ok (.started (some id)) | .ok (.clicked (.edgeStarted id)) => some (.edge id)
  | _ => none

/-- A refusal hands out nothing. -/
theorem created?_map {β : Type} (answer : Except CanvasError β) {f : β → Reply}
    (none : ∀ b, created? (.ok (f b)) = none) : created? (answer.map f) = .none := by
  cases answer with
  | error error => rfl
  | ok b => exact none b

/-- What an operation hands out: nothing, or the next identity of a node or of an edge, under which
    there is an element then. -/
inductive Issues (c d : Canvas α) : Option ElementRef → Prop
  | nothing (nextNode : d.nextNode = c.nextNode) (nextEdge : d.nextEdge = c.nextEdge) :
      Issues c d none
  | node (nextNode : d.nextNode = c.nextNode + 1) (nextEdge : d.nextEdge = c.nextEdge)
      (present : .node ⟨c.nextNode⟩ ∈ d.elements) : Issues c d (some (.node ⟨c.nextNode⟩))
  | edge (nextNode : d.nextNode = c.nextNode) (nextEdge : d.nextEdge = c.nextEdge + 1)
      (present : .edge ⟨c.nextEdge⟩ ∈ d.elements) : Issues c d (some (.edge ⟨c.nextEdge⟩))

namespace Issues

variable {created : Option ElementRef}

theorem unissued (h : Issues c d created) {element : ElementRef} (new : created = some element) :
    element ∈ d.elements ∧ c.Unissued element := by
  cases h with
  | nothing => cases new
  | node nextNode nextEdge present =>
    cases new
    exact ⟨present, Nat.le_refl c.nextNode⟩
  | edge nextNode nextEdge present =>
    cases new
    exact ⟨present, Nat.le_refl c.nextEdge⟩

theorem unissued_or_eq (h : Issues c d created) {element : ElementRef}
    (unissued : c.Unissued element) : d.Unissued element ∨ created = some element := by
  cases h with
  | nothing nextNode nextEdge =>
    left
    cases element with
    | node id => exact Nat.le_trans (Nat.le_of_eq nextNode) unissued
    | edge id => exact Nat.le_trans (Nat.le_of_eq nextEdge) unissued
  | node nextNode nextEdge present =>
    cases element with
    | node id =>
      rcases Nat.eq_or_lt_of_le unissued with heq | hlt
      · exact .inr (by rw [heq])
      · exact .inl (Nat.le_trans (Nat.le_of_eq nextNode) hlt)
    | edge id => exact .inl (Nat.le_trans (Nat.le_of_eq nextEdge) unissued)
  | edge nextNode nextEdge present =>
    cases element with
    | node id => exact .inl (Nat.le_trans (Nat.le_of_eq nextNode) unissued)
    | edge id =>
      rcases Nat.eq_or_lt_of_le unissued with heq | hlt
      · exact .inr (by rw [heq])
      · exact .inl (Nat.le_trans (Nat.le_of_eq nextEdge) hlt)

/-- What is handed out is what is on the canvas now and was not before. -/
theorem eq_some_iff (h : Issues c d created) (evolves : Evolves c d) (hc : c.WellFormed)
    (hd : d.WellFormed) (element : ElementRef) :
    created = some element ↔ element ∈ d.elements ∧ element ∉ c.elements := by
  constructor
  · intro hnew
    obtain ⟨hpresent, hunissued⟩ := h.unissued hnew
    exact ⟨hpresent, fun hbefore => hc.not_unissued hbefore hunissued⟩
  · rintro ⟨hpresent, habsent⟩
    have hunissued : c.Unissued element := (evolves.known hpresent).resolve_left habsent
    exact (h.unissued_or_eq hunissued).resolve_left (hd.not_unissued hpresent)

end Issues

end Canvas

/-- The operations that can put an element on the canvas. -/
def Operation.Adds : Operation α → Prop
  | .createNode .. | .startEdge .. | .connect .. | .click .. => True
  | _ => False

namespace Canvas

variable [Scalar α] {c d : Canvas α} {operation : Operation α}

theorem issues_createNode (c : Canvas α) (position : Point α) (kind : NodeKind)
    (content : String) :
    Issues c (c.perform (.createNode position kind content)).1
      (created? (c.perform (.createNode position kind content)).2) := by
  obtain ⟨selected, feed, hcreate⟩ := c.createNode_eq position kind content
  simp only [perform, hcreate]
  refine .node rfl rfl (mem_elements_node.2 ⟨c.freshNode position kind content, ?_, rfl⟩)
  simp [withNode]

theorem issues_startEdge (c : Canvas α) (subject : NodeId) (content : String) :
    Issues c (c.perform (.startEdge subject content)).1
      (created? (c.perform (.startEdge subject content)).2) := by
  simp only [perform, startEdge]
  split
  · exact .nothing rfl rfl
  · next n found =>
    split
    · exact .nothing rfl rfl
    · refine .edge rfl rfl (mem_elements_edge.2 ⟨c.drawnEdge n content, ?_, rfl⟩)
      obtain rfl : n.id = subject := (Diagram.mem_of_node? found).2
      exact List.mem_append_right _ (List.mem_singleton_self _)

theorem issues_connect (c : Canvas α) (subject object : NodeId) (content : String) :
    Issues c (c.perform (.connect subject object content)).1
      (created? (c.perform (.connect subject object content)).2) := by
  simp only [perform, connect]
  split
  · exact .nothing rfl rfl
  next s subjectFound =>
  split
  · exact .nothing rfl rfl
  next o objectFound =>
  obtain rfl : s.id = subject := (Diagram.mem_of_node? subjectFound).2
  obtain rfl : o.id = object := (Diagram.mem_of_node? objectFound).2
  refine .edge rfl rfl (mem_elements_edge.2 ⟨c.joiningEdge s o content, ?_, rfl⟩)
  exact List.mem_append_right _ (List.mem_singleton_self _)

/-- All other operations leave the counters alone. -/
theorem issues_step (hstep : Step c operation d) (h : ¬ operation.Adds) : Issues c d none := by
  cases hstep with
  | createNode | startEdge | connect | click => exact absurd trivial h
  | _ => exact .nothing rfl rfl

/-- And they answer with no new element. -/
theorem created?_perform (c : Canvas α) (h : ¬ operation.Adds) :
    created? (c.perform operation).2 = none := by
  cases operation with
  | createNode | startEdge | connect | click => exact absurd trivial h
  | followPointer | clear | clearSelection | setMode => rfl
  | updateNode | inferClass | setClass | assignNode | moveNode | deleteNode =>
    exact created?_map _ fun _ => rfl
  | completeEdge | updateEdge | setOptional | deleteEdge | select | validate =>
    exact created?_map _ fun _ => rfl

theorem issues_of_not_adds (c : Canvas α) (h : ¬ operation.Adds) :
    Issues c (c.perform operation).1 (created? (c.perform operation).2) := by
  rw [created?_perform c h]
  exact issues_step (step_perform c operation) h

/-- A click answers with the element with which the operation does that it stands for. -/
theorem created?_click (c : Canvas α) (position : Point α) (hit : Option NodeId) :
    created? (c.perform (.click position hit)).2 =
      created? (c.perform (c.clickOperation position hit)).2 := by
  cases hm : c.mode <;> cases hit <;> simp only [perform, click, clickOperation, hm, Prod.map]
  case drag.some node => cases (c.select (.node node)).2 <;> rfl
  case placeNode.some node => cases (c.select (.node node)).2 <;> rfl
  case drawEdge.some node =>
    cases c.completing with
    | true =>
      simp only [if_true]
      rcases (c.completeEdge node).2 with error | ⟨edge⟩ | ⟨edge⟩ <;> rfl
    | false =>
      simp only [Bool.false_eq_true, if_false]
      rcases (c.startEdge node Sparql.anonymous).2 with error | started
      · rfl
      · cases started <;> rfl
  all_goals rfl

/-- Whatever is done, an identity is handed out together with an element that has it. -/
theorem issues_perform (c : Canvas α) (operation : Operation α) :
    Issues c (c.perform operation).1 (created? (c.perform operation).2) := by
  cases operation with
  | createNode position kind content => exact c.issues_createNode position kind content
  | startEdge subject content => exact c.issues_startEdge subject content
  | connect subject object content => exact c.issues_connect subject object content
  | click position hit =>
    rw [perform_click, created?_click]
    unfold clickOperation
    split
    · exact c.issues_createNode _ _ _
    · exact c.issues_of_not_adds id
    · exact c.issues_of_not_adds id
    · split
      · exact c.issues_of_not_adds id
      · exact c.issues_startEdge _ _
    · exact c.issues_of_not_adds id
    · exact c.issues_of_not_adds id
  | _ => exact c.issues_of_not_adds id

/-! ## Every canvas -/

/-- There is a complete edge with the identity. -/
def HasComplete (c : Canvas α) (id : EdgeId) : Prop :=
  ∃ e ∈ c.diagram.edges, e.id = id ∧ e.complete = true

/-- Let `b` be any canvas, `c` what it has become, and let one more operation follow. Edges that are
    left have moved on at most, and elements that are left are in the same order. The operation
    answers with the element that it adds, if it adds one, whose identity is larger than all of its
    kind that there ever were. So an element that is gone does not come back, and no edge becomes
    complete twice. Only switching the mode changes it. -/
theorem Reachable.elements_keep_identity {allowed : Operation α → Prop} {sizes : ShapeSizes α}
    {b c : Canvas α} (reached : Reachable allowed sizes b) (later : Later b c)
    (operation : Operation α) :
    let d := (c.perform operation).1
    (∀ e ∈ b.diagram.edges, ∀ e' ∈ d.diagram.edges, e'.id = e.id → e.Continues e') ∧
      b.elements.filter (· ∈ d.elements) = d.elements.filter (· ∈ b.elements) ∧
      (∀ element, created? (c.perform operation).2 = some element ↔
        element ∈ d.elements ∧ element ∉ c.elements) ∧
      (∀ element ∈ d.elements, element ∉ c.elements →
        ∀ old ∈ b.elements, old.SameKind element → old.index < element.index) ∧
      (∀ element ∈ b.elements, element ∉ c.elements → element ∉ d.elements) ∧
      (∀ id, b.HasComplete id → ¬ c.HasComplete id → ¬ d.HasComplete id) ∧
      (d.mode = c.mode ∨ operation = .setMode d.mode) := by
  intro d
  have hb : b.WellFormed := reached.wellFormed
  have hc : c.WellFormed := later.wellFormed hb
  have hd : d.WellFormed := hc.step (step_perform c operation)
  have hbc : Evolves b c := later.evolves hb
  have hcd : Evolves c d := evolves_perform hc operation
  have hbd : Evolves b d := hbc.trans hcd
  have hnew : ∀ element ∈ d.elements, element ∉ c.elements → b.Unissued element :=
    fun element hpresent habsent => hbc.unissued ((hcd.known hpresent).resolve_left habsent)
  refine ⟨fun e he e' he' hid => hbd.continues hb he he' hid, ?_, ?_, ?_, ?_, ?_, ?_⟩
  · exact filter_comm_of_ascending (fun _ _ h => h.asymm) hb.elements_ascending
      hd.elements_ascending
  · exact (c.issues_perform operation).eq_some_iff hcd hc hd
  · intro element hpresent habsent old hold hkind
    exact hb.index_lt_of_unissued hold (hnew element hpresent habsent) hkind
  · intro element hold habsent hpresent
    exact hb.not_unissued hold (hnew element hpresent habsent)
  · rintro id ⟨e, he, rfl, hcomplete⟩ hno ⟨e', he', hid, -⟩
    -- the edge was on the canvas in between, and complete since then
    have hold : .edge e.id ∈ b.elements := mem_elements_edge.2 ⟨e, he, rfl⟩
    rcases hcd.edge_known e' he' with ⟨x, hx, hcontinues⟩ | hunissued
    · have hsame : x.id = e.id := hcontinues.id.symm.trans hid
      exact hno ⟨x, hx, hsame, (hbc.continues hb he hx hsame).complete hcomplete⟩
    · exact hb.not_unissued hold (hbc.unissued (hid ▸ hunissued))
  · exact mode_step (step_perform c operation)

/-- The edge between the two nodes is gone, the other one is still being drawn. -/
def redrawn : Canvas Float := (sketch.perform (.deleteEdge ⟨1⟩)).1

/-- The nodes are joined again, and the new edge does not get the identity of the old one. -/
theorem elements_keep_identity_redrawn :
    created? (redrawn.perform (.connect ⟨2⟩ ⟨1⟩ "ex:knows")).2 = some (.edge ⟨3⟩) ∧
      .edge ⟨1⟩ ∉ (redrawn.perform (.connect ⟨2⟩ ⟨1⟩ "ex:knows")).1.elements ∧
      ∀ old ∈ sketch.elements, old.SameKind (.edge ⟨3⟩) → old.index < 3 := by
  obtain ⟨-, -, hcreated, hlarger, hgone, -, -⟩ := reachable_sketch.elements_keep_identity
    (.perform .now (.deleteEdge ⟨1⟩)) (.connect ⟨2⟩ ⟨1⟩ "ex:knows")
  have hthird :
      created? (redrawn.perform (.connect ⟨2⟩ ⟨1⟩ "ex:knows")).2 = some (.edge ⟨3⟩) := rfl
  obtain ⟨hpresent, habsent⟩ := (hcreated (.edge ⟨3⟩)).1 hthird
  refine ⟨hthird, hgone _ (by decide) (by decide), ?_⟩
  exact hlarger _ hpresent habsent

end Canvas

end QueryCanvas
