/-
  QueryCanvas.Proofs.Canvas.Click

  What clicks on nodes do while edges are drawn.

  A click goes by the flag that the canvas keeps, to one of two operations that
  go by the edges. On a canvas that the operations lead to, the flag says whether
  an edge is incomplete (`WellFormed.completing_eq_isSome`), whichever way edges
  have come and gone. So the operation that a click is sent to is one that finds
  what it needs: the click starts an edge, ends the one that is being drawn, or
  leaves all as it is (`Clicked`).
-/

import QueryCanvas.Proofs.Canvas.Completion
import QueryCanvas.Proofs.Canvas.Evolution

namespace QueryCanvas.Canvas

variable {α : Type} [Scalar α] {c : Canvas α}

/-! ## The mode -/

/-- No click switches the mode. -/
theorem mode_click (c : Canvas α) (position : Point α) (hit : Option NodeId) :
    (c.click position hit).1.mode = c.mode :=
  (mode_step (step_perform c (.click position hit))).resolve_right nofun

/-! ## Clicks on nodes -/

/-- What a click reports that was to start an edge. -/
def startOutcome : Option EdgeId → ClickOutcome
  | some edge => .edgeStarted edge
  | none => .ignored

/-- What a click reports that was to end an edge. -/
def endOutcome : Completion → ClickOutcome
  | .completed edge => .edgeCompleted edge
  | .pending edge => .edgePending edge

/-- With the flag down, a click on a node is to start an edge there. -/
theorem click_of_idle (mode : c.mode = .drawEdge) (idle : c.completing = false)
    (position : Point α) (node : NodeId) :
    c.click position (some node) =
      ((c.startEdge node Sparql.anonymous).1,
        (c.startEdge node Sparql.anonymous).2.map startOutcome) := by
  simp only [click, mode, idle]
  rfl

/-- With the flag up, it is to end the edge that is being drawn. -/
theorem click_of_completing (mode : c.mode = .drawEdge) (completing : c.completing = true)
    (position : Point α) (node : NodeId) :
    c.click position (some node) =
      ((c.completeEdge node).1, (c.completeEdge node).2.map endOutcome) := by
  simp only [click, mode, completing, if_true]
  rfl

/-- How a click on the node `n` ends while edges are drawn. -/
inductive Clicked (c : Canvas α) (n : Node α) :
    Canvas α × Except CanvasError ClickOutcome → Prop
  /-- No edge is being drawn. -/
  | starts (feed : Option (List (Event α))) (idle : c.diagram.incompleteEdge? = none) :
      Clicked c n
        ({ c with
            diagram := { c.diagram with
              edges := c.diagram.edges ++ [c.drawnEdge n Sparql.anonymous] }
            nextEdge := c.nextEdge + 1
            completing := true
            feed := feed }, .ok (.edgeStarted ⟨c.nextEdge⟩))
  /-- The edge that is being drawn meets the outline of the node. -/
  | ends {e : Edge α} {subject : Node α} {ends : Point α × Point α}
      (feed : Option (List (Event α))) (drawn : c.diagram.incompleteEdge? = some e)
      (starts : e.subject.node? = some subject.id)
      (subjectFound : c.node? subject.id = some subject)
      (crossed : anchorPoints? subject n = some ends) :
      Clicked c n
        ({ c with
            diagram := c.diagram.modifyEdge e.id fun e =>
              { e with
                subject := .anchored subject.id ends.1
                object := .anchored n.id ends.2
                complete := true }
            completing := false
            feed := feed }, .ok (.edgeCompleted e.id))
  /-- It does not. -/
  | waits {e : Edge α} {subject : Node α} (drawn : c.diagram.incompleteEdge? = some e)
      (starts : e.subject.node? = some subject.id)
      (subjectFound : c.node? subject.id = some subject)
      (uncrossed : anchorPoints? subject n = none) :
      Clicked c n (c, .ok (.edgePending e.id))

/-- A click on a node that exists ends in one of these ways. -/
theorem WellFormed.clicked (h : c.WellFormed) (mode : c.mode = .drawEdge) {n : Node α}
    (found : c.node? n.id = some n) (position : Point α) :
    Clicked c n (c.click position (some n.id)) := by
  -- the flag and the edges agree, so that the operation is the one that suits the edges
  cases hdrawn : c.diagram.incompleteEdge? with
  | none =>
    have hflag : c.completing = false := by simp [h.completing_eq_isSome, hdrawn]
    obtain ⟨feed, hstart⟩ := startEdge_eq found hdrawn Sparql.anonymous
    rw [click_of_idle mode hflag, hstart]
    exact .starts feed hdrawn
  | some e =>
    have hflag : c.completing = true := by simp [h.completing_eq_isSome, hdrawn]
    obtain ⟨subject, starts, subjectFound⟩ :=
      h.start_exists (Diagram.mem_of_incompleteEdge? hdrawn).1
    cases hends : anchorPoints? subject n with
    | none =>
      have hpending := completeEdge_of_uncrossed hdrawn starts subjectFound found hends
      rw [click_of_completing mode hflag, hpending]
      exact .waits hdrawn starts subjectFound hends
    | some ends =>
      obtain ⟨feed, hcomplete⟩ := completeEdge_eq hdrawn starts subjectFound found hends
      rw [click_of_completing mode hflag, hcomplete]
      exact .ends feed hdrawn starts subjectFound hends

/-! ## Every canvas -/

/-- In `c'`, the new edge `id` is being drawn from the node `n`. -/
structure Started (c c' : Canvas α) (id : EdgeId) (n : Node α) : Prop where
  fresh : c.edge? id = none
  appended : ∃ e, c'.diagram.edges = c.diagram.edges ++ [e] ∧ e.id = id ∧
    e.subject.node? = some n.id ∧ e.complete = false
  completing : c'.completing = true

/-- In `c'`, the edge `id` joins the nodes `subject` and `object`, and no edge is being drawn. -/
structure Completed (c' : Canvas α) (id : EdgeId) (subject object : Node α) : Prop where
  joins : ∃ e ∈ c'.diagram.edges, e.id = id ∧ e.subject.node? = some subject.id ∧
    e.object.node? = some object.id ∧ e.complete = true
  completing : c'.completing = false

/-- Clicks leave the mode. While edges are drawn, a click on a node that exists is never ignored,
    nor does it report that no edge is being drawn: if all edges are complete, it starts one at the
    node. If one is not, the click ends this edge, or leaves the canvas as it is, according to
    whether the edge meets the outline of the node. -/
theorem Reachable.click_draws {allowed : Operation α → Prop} {sizes : ShapeSizes α}
    (reached : Reachable allowed sizes c) (position : Point α) :
    (∀ hit, (c.click position hit).1.mode = c.mode) ∧
      ∀ n, c.mode = .drawEdge → c.node? n.id = some n →
        (c.click position (some n.id)).2 ≠ .ok .ignored ∧
          (c.click position (some n.id)).2 ≠ .error .noIncompleteEdge ∧
          ((∀ e ∈ c.diagram.edges, e.complete = true) →
            (c.click position (some n.id)).2 = .ok (.edgeStarted ⟨c.nextEdge⟩) ∧
              Started c (c.click position (some n.id)).1 ⟨c.nextEdge⟩ n) ∧
          ∀ e ∈ c.diagram.edges, e.complete = false →
            ∃ subject, e.subject.node? = some subject.id ∧ c.node? subject.id = some subject ∧
              ((c.click position (some n.id)).2 = .ok (.edgeCompleted e.id) ↔
                (anchorPoints? subject n).isSome) ∧
              ((anchorPoints? subject n).isSome →
                Completed (c.click position (some n.id)).1 e.id subject n) ∧
              (anchorPoints? subject n = none →
                c.click position (some n.id) = (c, .ok (.edgePending e.id))) := by
  have wf : c.WellFormed := reached.wellFormed
  refine ⟨fun hit => c.mode_click position hit, fun n mode found => ?_⟩
  have hclicked := wf.clicked mode found position
  generalize c.click position (some n.id) = clicked at hclicked
  cases hclicked with
  | starts feed idle =>
    -- all edges are complete, so there is none for the last part
    have hcomplete : ∀ e ∈ c.diagram.edges, e.complete = true := by
      intro e he
      simpa using List.find?_eq_none.1 idle e he
    refine ⟨nofun, nofun, fun _ => ⟨rfl, wf.edge?_fresh, ⟨_, rfl, rfl, rfl, rfl⟩, rfl⟩, ?_⟩
    intro e he hincomplete
    rw [hcomplete e he] at hincomplete
    cases hincomplete
  | @ends e subject ends feed drawn starts subjectFound crossed =>
    -- an edge is incomplete, and it is the only one
    obtain ⟨hmem, hincomplete⟩ := Diagram.mem_of_incompleteEdge? drawn
    refine ⟨nofun, nofun, fun hall => ?_, fun e' he' hincomplete' => ?_⟩
    · rw [hall e hmem] at hincomplete
      cases hincomplete
    · obtain rfl := wf.incomplete_unique hmem he' hincomplete hincomplete'
      refine ⟨subject, starts, subjectFound, by simp [crossed], fun _ => ?_, by simp [crossed]⟩
      exact ⟨⟨_, Diagram.mem_modifyEdge hmem, rfl, rfl, rfl, rfl⟩, rfl⟩
  | @waits e subject drawn starts subjectFound uncrossed =>
    obtain ⟨hmem, hincomplete⟩ := Diagram.mem_of_incompleteEdge? drawn
    refine ⟨nofun, nofun, fun hall => ?_, fun e' he' hincomplete' => ?_⟩
    · rw [hall e hmem] at hincomplete
      cases hincomplete
    · obtain rfl := wf.incomplete_unique hmem he' hincomplete hincomplete'
      exact ⟨subject, starts, subjectFound, by simp [uncrossed], by simp [uncrossed], fun _ => rfl⟩

/-- An edge is being drawn from the left node. -/
def leaving : Canvas ℚ := apart.run [.setMode .drawEdge, .click ⟨5, 5⟩ (some ⟨1⟩)]

theorem reachable_leaving : Reachable (fun _ => True) plainSizes leaving :=
  reachable_apart.run fun _ _ => trivial

/-- That edge, with its free end one unit off the node. -/
def leavingEdge : Edge ℚ := apart.edgeTo leftOfApart Sparql.anonymous ⟨1, 1⟩

/-- The click on the right node ends the edge, and one on the node over the left does not. After the
    left node has been deleted together with the edge, the click starts another one. -/
theorem click_draws_leaving :
    (leaving.click ⟨290, 0⟩ (some ⟨2⟩)).2 = .ok (.edgeCompleted ⟨1⟩) ∧
      leaving.click ⟨45, 0⟩ (some ⟨3⟩) = (leaving, .ok (.edgePending ⟨1⟩)) ∧
      ((leaving.perform (.deleteNode ⟨1⟩)).1.click ⟨290, 0⟩ (some ⟨2⟩)).2 =
        .ok (.edgeStarted ⟨2⟩) := by
  have hdrawn : leavingEdge ∈ leaving.diagram.edges := by decide +kernel
  have hleft : ∀ subject, leavingEdge.subject.node? = some subject.id →
      leaving.node? subject.id = some subject → leftOfApart = subject := by
    intro subject hstart hfound
    rw [← Option.some.inj hstart] at hfound
    exact Option.some.inj hfound
  refine ⟨?_, ?_, ?_⟩
  · obtain ⟨-, hnode⟩ := Reachable.click_draws reachable_leaving ⟨290, 0⟩
    obtain ⟨-, -, -, hincomplete⟩ := hnode rightOfApart rfl rfl
    obtain ⟨subject, hstart, hfound, hcompleted, -, -⟩ := hincomplete leavingEdge hdrawn rfl
    obtain rfl := hleft subject hstart hfound
    exact hcompleted.2 (by decide +kernel)
  · obtain ⟨-, hnode⟩ := Reachable.click_draws reachable_leaving ⟨45, 0⟩
    obtain ⟨-, -, -, hincomplete⟩ := hnode overApart rfl rfl
    obtain ⟨subject, hstart, hfound, -, -, hpending⟩ := hincomplete leavingEdge hdrawn rfl
    obtain rfl := hleft subject hstart hfound
    exact hpending (by decide +kernel)
  · have hreached : Reachable (fun _ => True) plainSizes (leaving.perform (.deleteNode ⟨1⟩)).1 :=
      reachable_leaving.perform trivial
    obtain ⟨-, hnode⟩ := Reachable.click_draws hreached ⟨290, 0⟩
    obtain ⟨-, -, hcomplete, -⟩ := hnode rightOfApart rfl rfl
    exact (hcomplete (by decide +kernel)).1

end QueryCanvas.Canvas
