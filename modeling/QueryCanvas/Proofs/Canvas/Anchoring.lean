/-
  QueryCanvas.Proofs.Canvas.Anchoring

  Where edges are anchored, over the real numbers.

  From outside an outline, the way to its center always crosses it, so that an
  edge to a node only stays unfinished while it starts inside the outline of
  that node (`Canvas.outline_met_on_the_way`).
-/

import QueryCanvas.Proofs.Canvas.Layout
import QueryCanvas.Proofs.Canvas.Placement
import QueryCanvas.Proofs.Geometry.Crossing

namespace QueryCanvas

/-- All outlines are rounded rectangles around the center. -/
theorem NodeKind.shape_eq_rounded {α : Type} [Scalar α] (kind : NodeKind) (center : Point α)
    (sizes : ShapeSizes α) :
    ∃ width height radius, kind.shape center sizes = .rounded center width height radius := by
  cases kind <;> exact ⟨_, _, _, rfl⟩

/-- Without anchors between two nodes, the center of the subject lies inside the outline of the
    object. -/
theorem contains_of_anchorPoints? {subject object : Node ℝ} (roomy : object.shape.Roomy)
    (centered : object.shape.center = object.position)
    (uncrossed : anchorPoints? subject object = none) :
    object.shape.contains subject.position = true := by
  rw [anchorPoints?, Option.map_eq_none_iff, ← centered] at uncrossed
  by_contra houtside
  obtain ⟨t, -, -, hcrossed, -⟩ := roomy.exists_firstCrossing (Bool.eq_false_iff.2 houtside)
  cases hcrossed.symm.trans uncrossed

namespace Canvas

/-- The edge of which it is said that it goes on being drawn is the incomplete one, and the outline
    of the destination was not met. -/
theorem WellFormed.uncrossed_of_pending {α : Type} [Scalar α] {c : Canvas α} (h : c.WellFormed)
    {object : Node α} (found : c.node? object.id = some object) {edge : EdgeId}
    (pending : (c.completeEdge object.id).2 = .ok (.pending edge)) :
    ∃ e subject, c.diagram.incompleteEdge? = some e ∧ e.id = edge ∧
      e.subject.node? = some subject.id ∧ c.node? subject.id = some subject ∧
      anchorPoints? subject object = none := by
  cases hdrawn : c.diagram.incompleteEdge? with
  | none => simp [Canvas.completeEdge, hdrawn] at pending
  | some e =>
    obtain ⟨subject, hstart, hsubject⟩ := h.start_exists (Diagram.mem_of_incompleteEdge? hdrawn).1
    cases hends : anchorPoints? subject object with
    | some ends =>
      obtain ⟨feed, hcompleted⟩ := completeEdge_eq hdrawn hstart hsubject found hends
      rw [hcompleted] at pending
      cases pending
    | none =>
      rw [completeEdge_of_uncrossed hdrawn hstart hsubject found hends] at pending
      cases pending
      exact ⟨e, subject, rfl, rfl, hstart, hsubject, hends⟩

/-- From a point outside a rounded rectangle, the segment to its center crosses the outline. The
    crossing that is found lies on the segment and close to the outline, and no point before it lies
    inside. So an edge that should be completed at a node goes on being drawn only if the center of
    its subject lies inside the outline of that node, up to the tolerance. -/
theorem outline_met_on_the_way :
    (∀ (center start : Point ℝ) (width height radius : ℝ),
      2 * Scalar.epsilon < width → 2 * Scalar.epsilon < height →
      (Shape.rounded center width height radius).contains start = false →
      ∃ t, 0 ≤ t ∧ t ≤ 1 ∧
        (Shape.rounded center width height radius).firstCrossing? start center =
          some (start.between center t) ∧
        (Shape.rounded center width height radius).NearOutline (start.between center t) ∧
        ∀ t' < t, ¬ (Shape.rounded center width height radius).Encloses (start.between center t')) ∧
    ∀ (allowed : Operation ℝ → Prop) (sizes : ShapeSizes ℝ) (c : Canvas ℝ),
      Reachable allowed sizes c → ∀ (object : Node ℝ) (edge : EdgeId),
      c.node? object.id = some object →
      2 * Scalar.epsilon < object.shape.width → 2 * Scalar.epsilon < object.shape.height →
      (c.completeEdge object.id).2 = .ok (.pending edge) →
      ∃ e subject, c.diagram.incompleteEdge? = some e ∧ e.id = edge ∧
        e.subject.node? = some subject.id ∧ c.node? subject.id = some subject ∧
        object.shape.contains subject.position = true := by
  refine ⟨fun center start width height radius wide high outside =>
    (Shape.roomy_rounded radius wide high).exists_firstCrossing outside, ?_⟩
  intro allowed sizes c reached object edge found wide high pending
  obtain ⟨e, subject, hdrawn, hedge, hstart, hsubject, huncrossed⟩ :=
    reached.wellFormed.uncrossed_of_pending found pending
  refine ⟨e, subject, hdrawn, hedge, hstart, hsubject, ?_⟩
  obtain ⟨width, height, radius, hshape⟩ := object.kind.shape_eq_rounded object.position c.sizes
  replace hshape := (reached.current.outlines object (Diagram.mem_of_node? found).1).trans hshape
  rw [hshape] at wide high
  refine contains_of_anchorPoints? ?_ ?_ huncrossed
  · exact hshape ▸ Shape.roomy_rounded radius wide high
  · rw [hshape]
    rfl

/-- Sizes in which the canvas of this section is drawn. -/
noncomputable def realSizes : ShapeSizes ℝ := ⟨80, 40, 12, 160, 50, 20, 200⟩

/-- Two nodes on top of each other, and an edge being drawn from the lower one. -/
noncomputable def stacked : Canvas ℝ :=
  (Canvas.new realSizes).run [
    .createNode ⟨0, 0⟩ .uri "ex:Person", .createNode ⟨0, 0⟩ .uri "ex:Place",
    .startEdge ⟨1⟩ "ex:visits"]

theorem reachable_stacked : Reachable (fun _ => True) realSizes stacked :=
  Reachable.new.run fun _ _ => trivial

noncomputable def lower : Node ℝ :=
  ⟨⟨1⟩, .uri, "ex:Person", ⟨0, 0⟩, NodeKind.uri.shape ⟨0, 0⟩ realSizes, false, none⟩

noncomputable def upper : Node ℝ :=
  ⟨⟨2⟩, .uri, "ex:Place", ⟨0, 0⟩, NodeKind.uri.shape ⟨0, 0⟩ realSizes, false, none⟩

noncomputable def visiting : Edge ℝ :=
  ⟨⟨1⟩, .boundProperty, "ex:visits", .anchored ⟨1⟩ ⟨0, 0⟩, .free ⟨0 + 1, 0 + 1⟩, false, false⟩

/-- A circle is met on the way from its left, and an edge between nodes on top of each other goes on
    being drawn, as its start is contained in the upper node. -/
theorem outline_met_stacked :
    (∃ t, (Shape.rounded (⟨100, 0⟩ : Point ℝ) 80 80 40).firstCrossing? ⟨0, 0⟩ ⟨100, 0⟩ =
      some ((⟨0, 0⟩ : Point ℝ).between ⟨100, 0⟩ t)) ∧
    (stacked.completeEdge ⟨2⟩).2 = .ok (.pending ⟨1⟩) ∧
    upper.shape.contains lower.position = true := by
  have hroom : 2 * Scalar.epsilon < (80 : ℝ) := by norm_num [Scalar.epsilon]
  have houtside : (Shape.rounded (⟨100, 0⟩ : Point ℝ) 80 80 40).contains ⟨0, 0⟩ = false := by
    refine Bool.eq_false_iff.2 fun hcontains => ?_
    have hnear : |(0 : ℝ) - 100| ≤ 80 / 2 + Scalar.tolerance := (Shape.contains_iff.1 hcontains).1
    norm_num [Scalar.tolerance] at hnear
  have hpending : (stacked.completeEdge ⟨2⟩).2 = .ok (.pending ⟨1⟩) := by
    have huncrossed : anchorPoints? lower upper = none := by
      have hdistance : √((0 - 0) * (0 - 0) + (0 - 0) * (0 - 0)) ≤ (Scalar.epsilon : ℝ) := by
        norm_num [Scalar.epsilon]
      rw [anchorPoints?, Option.map_eq_none_iff]
      exact if_pos hdistance
    have hlower : stacked.node? lower.id = some lower := rfl
    have hupper : stacked.node? upper.id = some upper := rfl
    have hdrawn : stacked.diagram.incompleteEdge? = some visiting := rfl
    exact congrArg Prod.snd (completeEdge_of_uncrossed hdrawn rfl hlower hupper huncrossed)
  obtain ⟨t, -, -, hcrossed, -⟩ :=
    outline_met_on_the_way.1 ⟨100, 0⟩ ⟨0, 0⟩ 80 80 40 hroom hroom houtside
  obtain ⟨e, subject, hdrawn, -, hstart, hsubject, hcontains⟩ :=
    outline_met_on_the_way.2 _ _ _ reachable_stacked upper ⟨1⟩ rfl hroom hroom hpending
  obtain rfl : visiting = e := Option.some.inj hdrawn
  rw [← Option.some.inj hstart] at hsubject
  obtain rfl : lower = subject := Option.some.inj hsubject
  exact ⟨⟨t, hcrossed⟩, hpending, hcontains⟩

end Canvas

end QueryCanvas
