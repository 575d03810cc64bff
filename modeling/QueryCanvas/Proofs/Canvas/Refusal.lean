/-
  QueryCanvas.Proofs.Canvas.Refusal

  When an operation is refused, and with which error. `refusal?` reads this off
  the canvas without performing the operation. Errors that tell of a broken
  diagram do not occur in it: with the structural invariant, every look-up that
  an operation makes on its own account succeeds.
-/

import QueryCanvas.Proofs.Canvas.Structure

namespace QueryCanvas

variable {α : Type}

/-- The errors that tell of a broken diagram, not of a mistaken call. -/
def CanvasError.isFault : CanvasError → Bool
  | .danglingEdge _ _ | .tooManyIncompleteEdges _ => true
  | .nodeNotFound _ | .edgeNotFound _ | .noIncompleteEdge => false

namespace Canvas

/-- The error for an element that does not exist. -/
def missing? (c : Canvas α) (element : ElementRef) : Option CanvasError :=
  if (c.diagram.describe? element).isSome then none else some (missing element)

theorem missing?_node (c : Canvas α) (id : NodeId) :
    c.missing? (.node id) = if (c.node? id).isSome then none else some (.nodeNotFound id) := by
  unfold missing? node?
  cases h : c.diagram.node? id <;> simp [Diagram.describe?, h, missing]

theorem missing?_edge (c : Canvas α) (id : EdgeId) :
    c.missing? (.edge id) = if (c.edge? id).isSome then none else some (.edgeNotFound id) := by
  unfold missing? edge?
  cases h : c.diagram.edge? id <;> simp [Diagram.describe?, h, missing]

/-- Why an operation is refused, if it is. -/
def refusal? (c : Canvas α) : Operation α → Option CanvasError
  | .updateNode node _ | .inferClass node _ _ | .setClass node _ | .assignNode node _ _ _
  | .moveNode node _ | .deleteNode node | .startEdge node _ => c.missing? (.node node)
  -- that no edge is being drawn is reported before a missing destination
  | .completeEdge node => if c.completing then c.missing? (.node node) else some .noIncompleteEdge
  -- a missing subject is reported before a missing object
  | .connect subject object _ => (c.missing? (.node subject)).or (c.missing? (.node object))
  | .updateEdge edge _ | .setOptional edge _ | .deleteEdge edge => c.missing? (.edge edge)
  | .select element => c.missing? element
  | .click _ hit => hit.bind fun node => c.missing? (.node node)
  | .createNode .. | .followPointer _ | .clear | .clearSelection | .setMode _ | .validate => none

/-- Nothing is refused on account of a broken diagram. -/
theorem isFault_of_refusal? {c : Canvas α} {operation : Operation α} {error : CanvasError}
    (h : c.refusal? operation = some error) : error.isFault = false := by
  have hmissing : ∀ element, c.missing? element = some error → error.isFault = false := by
    intro element hm
    cases element <;> simp [missing?, missing] at hm <;> simp [← hm.2, CanvasError.isFault]
  cases operation with
  | completeEdge node =>
    simp only [refusal?] at h
    split at h
    · exact hmissing _ h
    · cases h
      rfl
  | connect subject object content =>
    rcases Option.or_eq_some_iff.1 h with h | ⟨-, h⟩ <;> exact hmissing _ h
  | click position hit =>
    obtain ⟨node, -, h⟩ := Option.bind_eq_some_iff.1 h
    exact hmissing _ h
  | createNode | followPointer | clear | clearSelection | setMode | validate => simp [refusal?] at h
  | _ => exact hmissing _ h

/-! ## Look-ups that do not fail -/

namespace WellFormed

variable {c : Canvas α}

/-- The flag says whether an edge can be found that is being drawn. -/
theorem completing_eq_isSome (h : c.WellFormed) :
    c.completing = c.diagram.incompleteEdge?.isSome := by
  rw [h.completing_eq, Diagram.incompleteEdge?, List.isSome_find?]

end WellFormed

/-! ## One operation at a time -/

theorem map_eq_error_iff {ε β γ : Type} {x : Except ε β} {f : β → γ} {e : ε} :
    x.map f = .error e ↔ x = .error e := by
  cases x <;> simp [Except.map]

theorem select_error_iff (c : Canvas α) (element : ElementRef) {error : CanvasError} :
    (c.select element).2 = .error error ↔ c.missing? element = some error := by
  unfold select missing?
  cases c.diagram.describe? element <;> simp

theorem setClass_error_iff (c : Canvas α) (id : NodeId) (inferredClass : Option String)
    {error : CanvasError} :
    (c.setClass id inferredClass).2 = .error error ↔ c.missing? (.node id) = some error := by
  rw [missing?_node, setClass]
  cases c.node? id <;> simp

theorem deleteNode_error_iff (c : Canvas α) (id : NodeId) {error : CanvasError} :
    (c.deleteNode id).2 = .error error ↔ c.missing? (.node id) = some error := by
  rw [missing?_node, deleteNode]
  cases c.node? id <;> simp

theorem updateEdge_error_iff (c : Canvas α) (id : EdgeId) (content : String)
    {error : CanvasError} :
    (c.updateEdge id content).2 = .error error ↔ c.missing? (.edge id) = some error := by
  rw [missing?_edge, updateEdge]
  cases c.edge? id <;> simp

theorem WellFormed.setOptional_error_iff {c : Canvas α} (h : c.WellFormed) (id : EdgeId)
    (value : Bool) {error : CanvasError} :
    (c.setOptional id value).2 = .error error ↔ c.missing? (.edge id) = some error := by
  rw [missing?_edge, setOptional]
  cases hfound : c.edge? id with
  | none => simp
  | some e =>
    -- no end of the edge is missing
    have hnone : ([e.subject.node?, e.object.node?].filterMap fun node => node).find?
        (fun node => (c.node? node).isNone) = none := by
      rw [List.find?_eq_none]
      intro node hnode
      rw [List.mem_filterMap] at hnode
      obtain ⟨_, hnode, rfl⟩ := hnode
      have htouches : e.touches node := by
        rw [Edge.touches_iff]
        simpa [Eq.comm] using hnode
      have := h.ends_exist e (Diagram.mem_of_edge? hfound).1 node htouches
      simpa [Option.isSome_iff_ne_none] using this
    simp [hnone]

theorem deleteEdge_error_iff (c : Canvas α) (id : EdgeId) {error : CanvasError} :
    (c.deleteEdge id).2 = .error error ↔ c.missing? (.edge id) = some error := by
  rw [missing?_edge, deleteEdge]
  cases c.edge? id <;> simp

variable [Scalar α]

theorem updateNode_error_iff (c : Canvas α) (id : NodeId) (content : String)
    {error : CanvasError} :
    (c.updateNode id content).2 = .error error ↔ c.missing? (.node id) = some error := by
  rw [missing?_node, updateNode]
  cases c.node? id <;> simp

theorem assignNode_error_iff (c : Canvas α) (id : NodeId) (kind : NodeKind) (content : String)
    (inferredClass : Option String) {error : CanvasError} :
    (c.assignNode id kind content inferredClass).2 = .error error ↔
      c.missing? (.node id) = some error := by
  rw [missing?_node, assignNode]
  cases c.node? id <;> simp

theorem inferClass_error_iff (c : Canvas α) (id : NodeId) (label : String) (merged : Bool)
    {error : CanvasError} :
    (c.inferClass id label merged).2 = .error error ↔ c.missing? (.node id) = some error := by
  rw [missing?_node, inferClass]
  cases c.node? id with
  | none => simp
  | some n => cases h : n.kind.isInferable <;> simp [h]

theorem moveNode_error_iff (c : Canvas α) (id : NodeId) (position : Point α)
    {error : CanvasError} :
    (c.moveNode id position).2 = .error error ↔ c.missing? (.node id) = some error := by
  rw [missing?_node, moveNode]
  cases c.node? id <;> simp

theorem startEdge_error_iff (c : Canvas α) (subject : NodeId) (content : String)
    {error : CanvasError} :
    (c.startEdge subject content).2 = .error error ↔
      c.missing? (.node subject) = some error := by
  rw [missing?_node, startEdge]
  cases c.node? subject with
  | none => simp
  | some n => cases c.diagram.incompleteEdge? <;> simp

theorem connect_error_iff (c : Canvas α) (subject object : NodeId) (content : String)
    {error : CanvasError} :
    (c.connect subject object content).2 = .error error ↔
      (c.missing? (.node subject)).or (c.missing? (.node object)) = some error := by
  rw [missing?_node, missing?_node, connect]
  cases c.node? subject with
  | none => simp
  | some s => cases c.node? object <;> simp

theorem WellFormed.completeEdge_error_iff {c : Canvas α} (h : c.WellFormed)
    (destination : NodeId) {error : CanvasError} :
    (c.completeEdge destination).2 = .error error ↔
      c.refusal? (.completeEdge destination) = some error := by
  simp only [refusal?, missing?_node, h.completing_eq_isSome]
  unfold Canvas.completeEdge
  cases hdrawn : c.diagram.incompleteEdge? with
  | none => simp
  | some e =>
    -- the subject of the edge is anchored and exists, so only the destination can be missing
    obtain ⟨n, hstart, hfound⟩ := h.start_exists (Diagram.mem_of_incompleteEdge? hdrawn).1
    simp only [hstart, hfound]
    cases c.node? destination with
    | none => simp
    | some object =>
      simp only [Option.isSome_some, if_true, reduceCtorEq, iff_false]
      split <;> simp

/-! ## All operations -/

theorem click_error_iff {c : Canvas α} (h : c.WellFormed) (position : Point α)
    (hit : Option NodeId) {error : CanvasError} :
    (c.click position hit).2 = .error error ↔ c.refusal? (.click position hit) = some error := by
  cases hit with
  | none => cases hm : c.mode <;> simp [click, hm, refusal?]
  | some node =>
    cases hm : c.mode with
    | drag => simp [click, hm, refusal?, map_eq_error_iff, select_error_iff]
    | placeNode => simp [click, hm, refusal?, map_eq_error_iff, select_error_iff]
    | drawEdge =>
      have hcomplete : (c.completeEdge node).2 = .error error ↔
          c.refusal? (.completeEdge node) = some error := h.completeEdge_error_iff node
      cases hc : c.completing with
      | true => simpa [click, hm, hc, refusal?, map_eq_error_iff] using hcomplete
      | false => simp [click, hm, hc, refusal?, map_eq_error_iff, startEdge_error_iff]

/-- The operations answer with an error exactly when, and with which error, `refusal?` says. -/
theorem WellFormed.perform_error_iff {c : Canvas α} (h : c.WellFormed) (operation : Operation α)
    {error : CanvasError} :
    (c.perform operation).2 = .error error ↔ c.refusal? operation = some error := by
  cases operation with
  | createNode | followPointer | clear | clearSelection | setMode => simp [perform, refusal?]
  | validate => simp [perform, refusal?, h.validate_eq, Except.map]
  | updateNode node content => exact map_eq_error_iff.trans (c.updateNode_error_iff node content)
  | inferClass node label merged =>
    exact map_eq_error_iff.trans (c.inferClass_error_iff node label merged)
  | setClass node inferredClass =>
    exact map_eq_error_iff.trans (c.setClass_error_iff node inferredClass)
  | assignNode node kind content inferredClass =>
    exact map_eq_error_iff.trans (c.assignNode_error_iff node kind content inferredClass)
  | moveNode node position => exact map_eq_error_iff.trans (c.moveNode_error_iff node position)
  | deleteNode node => exact map_eq_error_iff.trans (c.deleteNode_error_iff node)
  | startEdge subject content =>
    exact map_eq_error_iff.trans (c.startEdge_error_iff subject content)
  | completeEdge destination => exact map_eq_error_iff.trans (h.completeEdge_error_iff destination)
  | connect subject object content =>
    exact map_eq_error_iff.trans (c.connect_error_iff subject object content)
  | updateEdge edge content => exact map_eq_error_iff.trans (c.updateEdge_error_iff edge content)
  | setOptional edge value => exact map_eq_error_iff.trans (h.setOptional_error_iff edge value)
  | deleteEdge edge => exact map_eq_error_iff.trans (c.deleteEdge_error_iff edge)
  | select element => exact map_eq_error_iff.trans (c.select_error_iff element)
  | click position hit => exact map_eq_error_iff.trans (click_error_iff h position hit)

/-! ## Runs -/

/-- Whatever led to it, a canvas satisfies the structural invariant, its check succeeds, and no
    operation on it reports a broken diagram. -/
theorem Reachable.sound {allowed : Operation α → Prop} {sizes : ShapeSizes α} {c : Canvas α}
    (reached : Reachable allowed sizes c) :
    c.WellFormed ∧ c.validate = .ok () ∧
      ∀ operation error, (c.perform operation).2 = .error error → error.isFault = false := by
  have h : c.WellFormed := reached.wellFormed
  refine ⟨h, h.validate_eq, fun operation error herror => ?_⟩
  exact isFault_of_refusal? ((h.perform_error_iff operation).1 herror)

theorem sound_sketch :
    sketch.completing = true ∧ sketch.WellFormed ∧ sketch.validate = .ok () ∧
      ∀ operation error, (sketch.perform operation).2 = .error error → error.isFault = false :=
  ⟨rfl, Reachable.sound reachable_sketch⟩

end Canvas

end QueryCanvas
