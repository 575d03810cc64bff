/-
  QueryCanvas.Proofs.Canvas.Atomicity

  An operation that does not come about leaves no trace. All operations look
  before they write: whatever is refused, and whatever is put off with an answer
  that is no error, returns the canvas as it came. The subscriber is told
  nothing, and no identity is used up.

  `refusal?` says which error comes when. With the structural invariant, it is
  also all that a refused operation does (`WellFormed.perform_of_refusal`).
-/

import QueryCanvas.Proofs.Canvas.Refusal

namespace QueryCanvas

variable {α : Type}

/-- The replies that say, without an error, that nothing has come about: an edge is being drawn
    already, the edge being drawn does not meet the outline yet, the class of the node is not to be
    inferred. -/
def Reply.isPutOff : Reply → Bool
  | .started none | .completion (.pending _) | .recorded false | .clicked (.edgePending _) => true
  | _ => false

/-- The answers that say that nothing has come about. -/
def LeavesUndone : Except CanvasError Reply → Prop
  | .error _ => True
  | .ok reply => reply.isPutOff = true

instance : DecidablePred LeavesUndone
  | .error _ => .isTrue trivial
  | .ok reply => inferInstanceAs (Decidable (reply.isPutOff = true))

namespace Canvas

variable {c : Canvas α}

/-! ## Why operations are refused -/

theorem node?_of_missing {id : NodeId} {error : CanvasError}
    (h : c.missing? (.node id) = some error) : c.node? id = none ∧ error = .nodeNotFound id := by
  rw [missing?_node] at h
  cases hnode : c.node? id <;> simp_all

theorem edge?_of_missing {id : EdgeId} {error : CanvasError}
    (h : c.missing? (.edge id) = some error) : c.edge? id = none ∧ error = .edgeNotFound id := by
  rw [missing?_edge] at h
  cases hedge : c.edge? id <;> simp_all

theorem select_of_missing {element : ElementRef} {error : CanvasError}
    (h : c.missing? element = some error) : c.select element = (c, .error error) := by
  unfold missing? at h
  cases hshown : c.diagram.describe? element <;> simp_all [select]

/-- That no edge is being drawn is reported when one is to be ended, and only then. -/
theorem refusal?_eq_noIncompleteEdge_iff {operation : Operation α} :
    c.refusal? operation = some .noIncompleteEdge ↔
      (∃ node, operation = .completeEdge node) ∧ c.completing = false := by
  have hmissing : ∀ element, c.missing? element ≠ some .noIncompleteEdge := by
    intro element
    cases element <;> simp [missing?, missing]
  cases operation with
  | completeEdge node => cases hc : c.completing <;> simp [refusal?, hc, hmissing]
  | connect subject object content => simp [refusal?, Option.or_eq_some_iff, hmissing]
  | click position hit => simp [refusal?, Option.bind_eq_some_iff, hmissing]
  | _ => simp [refusal?, hmissing]

variable [Scalar α]

/-! ## Refused operations -/

/-- That no edge is being drawn is found out first, then that the destination is missing. -/
theorem WellFormed.completeEdge_of_refusal (h : c.WellFormed) {destination : NodeId}
    {error : CanvasError} (refused : c.refusal? (.completeEdge destination) = some error) :
    c.completeEdge destination = (c, .error error) := by
  simp only [refusal?, h.completing_eq_isSome] at refused
  cases hdrawn : c.diagram.incompleteEdge? with
  | none =>
    obtain rfl : CanvasError.noIncompleteEdge = error := by simpa [hdrawn] using refused
    simp only [Canvas.completeEdge, hdrawn]
  | some e =>
    obtain ⟨hnone, rfl⟩ := node?_of_missing (by simpa [hdrawn] using refused)
    obtain ⟨n, hstart, hfound⟩ := h.start_exists (Diagram.mem_of_incompleteEdge? hdrawn).1
    simp only [Canvas.completeEdge, hdrawn, hstart, hfound, hnone]

theorem startEdge_of_missing {subject : NodeId} {error : CanvasError} (content : String)
    (h : c.missing? (.node subject) = some error) :
    c.startEdge subject content = (c, .error error) := by
  obtain ⟨hnone, rfl⟩ := node?_of_missing h
  simp only [startEdge, hnone]

/-- A click is refused where the operation is that it stands for. -/
theorem WellFormed.click_of_refusal (h : c.WellFormed) (position : Point α) {hit : Option NodeId}
    {error : CanvasError} (refused : c.refusal? (.click position hit) = some error) :
    c.click position hit = (c, .error error) := by
  obtain ⟨node, rfl, hmissing⟩ := Option.bind_eq_some_iff.1 refused
  cases hmode : c.mode with
  | drag => simp only [click, hmode, select_of_missing hmissing, Except.map]
  | placeNode => simp only [click, hmode, select_of_missing hmissing, Except.map]
  | drawEdge =>
    cases hcompleting : c.completing with
    | true =>
      have hcomplete : c.completeEdge node = (c, .error error) :=
        h.completeEdge_of_refusal (by simp only [refusal?, hcompleting, if_true, hmissing])
      simp [click, hmode, hcompleting, hcomplete, Except.map]
    | false =>
      simp [click, hmode, hcompleting, startEdge_of_missing _ hmissing, Except.map]

/-- A refused operation reports the error and does nothing else. -/
theorem WellFormed.perform_of_refusal (h : c.WellFormed) {operation : Operation α}
    {error : CanvasError} (refused : c.refusal? operation = some error) :
    c.perform operation = (c, .error error) := by
  cases operation with
  | createNode | followPointer | clear | clearSelection | setMode | validate =>
    simp [refusal?] at refused
  | updateNode | inferClass | setClass | assignNode | moveNode | deleteNode =>
    obtain ⟨hnone, rfl⟩ := node?_of_missing refused
    simp [perform, updateNode, inferClass, setClass, assignNode, moveNode, deleteNode, hnone,
      Except.map]
  | updateEdge | setOptional | deleteEdge =>
    obtain ⟨hnone, rfl⟩ := edge?_of_missing refused
    simp [perform, updateEdge, setOptional, deleteEdge, hnone, Except.map]
  | startEdge subject content =>
    simp [perform, startEdge_of_missing content refused, Except.map]
  | completeEdge destination => simp [perform, h.completeEdge_of_refusal refused, Except.map]
  | connect subject object content =>
    -- the subject is missing, or it is there and the object is missing
    rcases Option.or_eq_some_iff.1 refused with hsubject | ⟨hsubject, hobject⟩
    · obtain ⟨hnone, rfl⟩ := node?_of_missing hsubject
      simp [perform, connect, hnone, Except.map]
    · obtain ⟨hnone, rfl⟩ := node?_of_missing hobject
      have hpresent : (c.node? subject).isSome := by
        rw [missing?_node] at hsubject
        simpa [Option.isSome_iff_ne_none] using hsubject
      obtain ⟨s, hs⟩ := Option.isSome_iff_exists.1 hpresent
      simp [perform, connect, hs, hnone, Except.map]
  | select element => simp [perform, select_of_missing refused, Except.map]
  | click position hit => simp [perform, h.click_of_refusal position refused, Except.map]

/-! ## Operations that are put off -/

theorem inferClass_of_false {id : NodeId} {label : String} {merged : Bool}
    (h : (c.inferClass id label merged).2 = .ok false) : (c.inferClass id label merged).1 = c := by
  unfold inferClass at h ⊢
  cases hfound : c.node? id with
  | none => rfl
  | some n =>
    by_cases hinferable : n.kind.isInferable = true
    · simp [hfound, hinferable] at h
    · simp only [hinferable]
      rfl

theorem startEdge_of_none {subject : NodeId} {content : String}
    (h : (c.startEdge subject content).2 = .ok none) : (c.startEdge subject content).1 = c := by
  unfold startEdge at h ⊢
  cases hfound : c.node? subject with
  | none => rfl
  | some n =>
    by_cases hdrawn : c.diagram.incompleteEdge?.isSome = true
    · simp only [hdrawn, if_true]
    · simp [hfound, hdrawn] at h

theorem completeEdge_of_pending {destination : NodeId} {e : EdgeId}
    (h : (c.completeEdge destination).2 = .ok (.pending e)) :
    (c.completeEdge destination).1 = c := by
  -- only the last branch writes, and its answer is that the edge is complete
  unfold completeEdge at h ⊢
  repeat' split
  all_goals simp_all

theorem map_eq_ok_iff {ε β γ : Type} {x : Except ε β} {f : β → γ} {y : γ} :
    x.map f = .ok y ↔ ∃ b, x = .ok b ∧ f b = y := by
  cases x <;> simp [Except.map]

/-- Only a click that is to end an edge is put off. -/
theorem click_of_pending {position : Point α} {hit : Option NodeId} {e : EdgeId}
    (h : (c.click position hit).2 = .ok (.edgePending e)) : (c.click position hit).1 = c := by
  cases hit with
  | none => cases hmode : c.mode <;> simp [click, hmode] at h
  | some node =>
    cases hmode : c.mode with
    | drag => simp [click, hmode, map_eq_ok_iff] at h
    | placeNode => simp [click, hmode, map_eq_ok_iff] at h
    | drawEdge =>
      cases hcompleting : c.completing with
      | true =>
        simp only [click, hmode, hcompleting, if_true] at h ⊢
        obtain ⟨completion, hcompletion, houtcome⟩ := map_eq_ok_iff.1 h
        cases completion with
        | completed edge => cases houtcome
        | pending edge => exact completeEdge_of_pending hcompletion
      | false =>
        simp only [click, hmode, hcompleting] at h
        obtain ⟨started, -, houtcome⟩ := map_eq_ok_iff.1 h
        cases started <;> cases houtcome

/-! ## All operations -/

/-- What is put off changes nothing. -/
theorem perform_of_isPutOff {operation : Operation α} {reply : Reply}
    (answered : (c.perform operation).2 = .ok reply) (putOff : reply.isPutOff) :
    (c.perform operation).1 = c := by
  cases operation with
  | createNode | followPointer | clear | clearSelection | setMode =>
    cases answered
    cases putOff
  | validate => rfl
  | inferClass node label merged =>
    obtain ⟨recorded, hrecorded, rfl⟩ := map_eq_ok_iff.1 answered
    cases recorded with
    | true => cases putOff
    | false => exact inferClass_of_false hrecorded
  | startEdge subject content =>
    obtain ⟨started, hstarted, rfl⟩ := map_eq_ok_iff.1 answered
    cases started with
    | some edge => cases putOff
    | none => exact startEdge_of_none hstarted
  | completeEdge destination =>
    obtain ⟨completion, hcompletion, rfl⟩ := map_eq_ok_iff.1 answered
    cases completion with
    | completed edge => cases putOff
    | pending edge => exact completeEdge_of_pending hcompletion
  | click position hit =>
    obtain ⟨outcome, houtcome, rfl⟩ := map_eq_ok_iff.1 answered
    cases outcome with
    | edgePending edge => exact click_of_pending houtcome
    | _ => cases putOff
  | _ =>
    -- the others have no answer that puts them off
    obtain ⟨_, -, rfl⟩ := map_eq_ok_iff.1 answered
    cases putOff

/-- What comes to nothing changes nothing. -/
theorem WellFormed.perform_of_undone (h : c.WellFormed) {operation : Operation α}
    (undone : LeavesUndone (c.perform operation).2) : (c.perform operation).1 = c := by
  cases hanswer : (c.perform operation).2 with
  | error error =>
    have hrefused : c.refusal? operation = some error := (h.perform_error_iff operation).1 hanswer
    rw [h.perform_of_refusal hrefused]
  | ok reply =>
    rw [hanswer] at undone
    exact perform_of_isPutOff hanswer undone

/-- Whatever led to it, a canvas stays as it is, with nothing said to the subscriber, under every
    operation that is refused or put off. The errors are those of `refusal?`: a missing element is
    named, of two missing ends of a new edge the subject; and that no edge is being drawn is
    reported exactly when one is to be ended, whether or not the destination exists. -/
theorem Reachable.undone_leaves_no_trace {allowed : Operation α → Prop} {sizes : ShapeSizes α}
    (reached : Reachable allowed sizes c) (operation : Operation α) :
    (LeavesUndone (c.perform operation).2 → (c.perform operation).1 = c) ∧
      (∀ error, (c.perform operation).2 = .error error ↔ c.refusal? operation = some error) ∧
      ((c.perform operation).2 = .error .noIncompleteEdge ↔
        (∃ node, operation = .completeEdge node) ∧ c.diagram.incompleteEdge? = none) := by
  have wf := reached.wellFormed
  refine ⟨fun undone => ?_, fun error => wf.perform_error_iff operation, ?_⟩
  · cases hanswer : (c.perform operation).2 with
    | error error =>
      rw [wf.perform_of_refusal ((wf.perform_error_iff operation).1 hanswer)]
    | ok reply =>
      rw [hanswer] at undone
      exact perform_of_isPutOff hanswer undone
  · rw [wf.perform_error_iff, refusal?_eq_noIncompleteEdge_iff, wf.completing_eq_isSome]
    simp

theorem undone_leaves_no_trace_sketch :
    (sketch.perform (.startEdge ⟨2⟩ "?")).2 = .ok (.started none) ∧
      (sketch.perform (.startEdge ⟨2⟩ "?")).1 = sketch ∧
      (sketch.perform (.connect ⟨8⟩ ⟨9⟩ "?")).2 = .error (.nodeNotFound ⟨8⟩) ∧
      (sketch.perform (.connect ⟨8⟩ ⟨9⟩ "?")).1 = sketch ∧
      (sketch.perform (.completeEdge ⟨9⟩)).2 = .error (.nodeNotFound ⟨9⟩) ∧
      (sketch.perform (.completeEdge ⟨9⟩)).2 ≠ .error .noIncompleteEdge := by
  obtain ⟨hstart, -, -⟩ := Reachable.undone_leaves_no_trace reachable_sketch (.startEdge ⟨2⟩ "?")
  obtain ⟨hconnect, herror, -⟩ :=
    Reachable.undone_leaves_no_trace reachable_sketch (.connect ⟨8⟩ ⟨9⟩ "?")
  obtain ⟨-, hmissing, hnever⟩ :=
    Reachable.undone_leaves_no_trace reachable_sketch (.completeEdge ⟨9⟩)
  have hsubject : (sketch.perform (.connect ⟨8⟩ ⟨9⟩ "?")).2 = .error (.nodeNotFound ⟨8⟩) :=
    (herror _).2 rfl
  refine ⟨rfl, hstart rfl, hsubject, hconnect ?_, (hmissing _).2 rfl, fun hno => ?_⟩
  · rw [hsubject]
    trivial
  · have hidle := (hnever.1 hno).2
    cases hidle

end Canvas

end QueryCanvas
