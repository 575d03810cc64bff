/-
  QueryCanvas.Proofs.Geometry.Crossing

  Where the way from outside to the center first crosses an outline, over the
  real numbers.

  Every parameter that is tested belongs to a point close to the outline, or to
  one that is enclosed (`Shape.nearOutline_or_enclosed`), and the point at which
  the way enters is among them (`Shape.exists_entry`). So the first of them is
  the entry, or comes before it and close to the outline.
-/

import Mathlib
import QueryCanvas.Geometry.Crossing
import QueryCanvas.Proofs.Geometry.Region

namespace QueryCanvas.Shape

variable {s : Shape ℝ} {start goal corner : Point ℝ} {t : ℝ}

/-! ## What is tested -/

/-- Parameters of points on the lines of the top and the bottom, beside the straight sides. -/
theorem Roomy.mem_levelCrossings_iff (h : s.Roomy) :
    t ∈ s.levelCrossings start goal ↔ Scalar.epsilon < |goal.y - start.y| ∧
      s.offY (start.between goal t) = s.height / 2 ∧
      s.offX (start.between goal t) ≤ s.innerX + Scalar.tolerance := by
  have hcrossings : s.levelCrossings start goal =
      if Scalar.epsilon < |goal.y - start.y| then
        [s.top, s.bottom].filterMap fun level =>
          if s.left + s.cornerRadius - Scalar.tolerance ≤
              start.x + (level - start.y) / (goal.y - start.y) * (goal.x - start.x) ∧
            start.x + (level - start.y) / (goal.y - start.y) * (goal.x - start.x) ≤
              s.right - s.cornerRadius + Scalar.tolerance
          then some ((level - start.y) / (goal.y - start.y)) else none
      else [] := rfl
  have hbeside : s.offX (start.between goal t) ≤ s.innerX + Scalar.tolerance ↔
      s.left + s.cornerRadius - Scalar.tolerance ≤ start.x + t * (goal.x - start.x) ∧
        start.x + t * (goal.x - start.x) ≤ s.right - s.cornerRadius + Scalar.tolerance := by
    show |start.x + (goal.x - start.x) * t - s.center.x| ≤
        s.width / 2 - s.cornerRadius + Scalar.tolerance ↔
      s.center.x - s.width / 2 + s.cornerRadius - Scalar.tolerance ≤ _ ∧
        _ ≤ s.center.x + s.width / 2 - s.cornerRadius + Scalar.tolerance
    rw [abs_le]
    constructor <;> rintro ⟨hleft, hright⟩ <;> constructor <;> linarith
  have hlevels : s.offY (start.between goal t) = s.height / 2 ↔
      start.y + (goal.y - start.y) * t = s.bottom ∨ start.y + (goal.y - start.y) * t = s.top := by
    have hheight : 0 ≤ s.height / 2 := (Scalar.epsilon_pos.trans h.lt_halfHeight).le
    show |start.y + (goal.y - start.y) * t - s.center.y| = _ ↔
      _ = s.center.y + s.height / 2 ∨ _ = s.center.y - s.height / 2
    rw [abs_eq hheight, sub_eq_iff_eq_add', sub_eq_iff_eq_add', ← sub_eq_add_neg]
  rw [hcrossings]
  split
  · next hsteep =>
    -- the parameter of a level is the one at which the way has its height
    have hne : goal.y - start.y ≠ 0 := abs_pos.1 (Scalar.epsilon_pos.trans hsteep)
    have hparameter (level : ℝ) : (level - start.y) / (goal.y - start.y) = t ↔
        start.y + (goal.y - start.y) * t = level := by
      rw [div_eq_iff hne, sub_eq_iff_eq_add', mul_comm t, eq_comm]
    simp only [List.mem_filterMap, Option.ite_none_right_eq_some, Option.some.injEq, hsteep,
      true_and, hlevels, hbeside, List.mem_cons, List.not_mem_nil, or_false]
    constructor
    · rintro ⟨level, hlevel, hside, ht⟩
      rw [ht] at hside
      rw [hparameter] at ht
      exact ⟨by rcases hlevel with rfl | rfl <;> simp [ht], hside⟩
    · rintro ⟨hbottom | htop, hside⟩
      · exact ⟨s.bottom, by simp, by rwa [(hparameter _).2 hbottom], (hparameter _).2 hbottom⟩
      · exact ⟨s.top, by simp, by rwa [(hparameter _).2 htop], (hparameter _).2 htop⟩
  · next hflat => simp [hflat]

/-- The lists of a shape with its sides exchanged. -/
theorem uprightCrossings_eq (s : Shape ℝ) (start goal : Point ℝ) :
    s.uprightCrossings start goal = s.transposed.levelCrossings start.transposed goal.transposed :=
  rfl

/-- Parameters of points on the lines of the left and right sides, beside the straight sides. -/
theorem Roomy.mem_uprightCrossings_iff (h : s.Roomy) :
    t ∈ s.uprightCrossings start goal ↔ Scalar.epsilon < |goal.x - start.x| ∧
      s.offX (start.between goal t) = s.width / 2 ∧
      s.offY (start.between goal t) ≤ s.innerY + Scalar.tolerance := by
  rw [uprightCrossings_eq, h.transposed.mem_levelCrossings_iff]
  rfl

/-- Parameters of points on the circle around the corner, with the tolerance in the quadrant that
    points away from the center. -/
theorem mem_arcCrossings_iff (apart : start ≠ goal) :
    t ∈ s.arcCrossings start goal corner ↔
      ((start.between goal t).x - corner.x) ^ 2 + ((start.between goal t).y - corner.y) ^ 2 =
        s.cornerRadius ^ 2 ∧
      -Scalar.tolerance ≤ ((start.between goal t).x - corner.x) * (corner.x - s.center.x) ∧
      -Scalar.tolerance ≤ ((start.between goal t).y - corner.y) * (corner.y - s.center.y) := by
  let a := (goal.x - start.x) * (goal.x - start.x) + (goal.y - start.y) * (goal.y - start.y)
  let b := 2 * ((start.x - corner.x) * (goal.x - start.x) +
    (start.y - corner.y) * (goal.y - start.y))
  let c := (start.x - corner.x) * (start.x - corner.x) +
    (start.y - corner.y) * (start.y - corner.y) - s.cornerRadius * s.cornerRadius
  have hcrossings : s.arcCrossings start goal corner =
      if b * b - 4 * a * c < 0 then []
      else [(-b - √(b * b - 4 * a * c)) / (2 * a), (-b + √(b * b - 4 * a * c)) / (2 * a)].filter
        fun t => decide (-Scalar.tolerance ≤
            ((start.between goal t).x - corner.x) * (corner.x - s.center.x) ∧
          -Scalar.tolerance ≤
            ((start.between goal t).y - corner.y) * (corner.y - s.center.y)) := rfl
  have hcircle : ((start.between goal t).x - corner.x) ^ 2 +
      ((start.between goal t).y - corner.y) ^ 2 = s.cornerRadius ^ 2 ↔
        a * (t * t) + b * t + c = 0 := by
    show (start.x + (goal.x - start.x) * t - corner.x) ^ 2 +
      (start.y + (goal.y - start.y) * t - corner.y) ^ 2 = _ ↔ _
    rw [← sub_eq_zero]
    simp only [a, b, c]
    ring_nf
  have ha : a ≠ 0 := by
    intro hzero
    obtain ⟨hx, hy⟩ := mul_self_add_mul_self_eq_zero.1 hzero
    exact apart (congrArg₂ Point.mk (sub_eq_zero.1 hx).symm (sub_eq_zero.1 hy).symm)
  rw [hcrossings, hcircle]
  split
  · next hnone =>
    -- where the way meets the circle, the discriminant is a square
    simp only [List.not_mem_nil, false_iff, not_and]
    intro hroot
    have hsquare : b * b - 4 * a * c = (2 * a * t + b) ^ 2 := by
      rw [← pow_two b]
      exact discrim_eq_sq_of_quadratic_eq_zero hroot
    exact absurd hnone (not_lt.2 (hsquare ▸ sq_nonneg _))
  · next hsome =>
    have hdiscrim : discrim a b c = √(b * b - 4 * a * c) * √(b * b - 4 * a * c) := by
      rw [Real.mul_self_sqrt (not_lt.1 hsome), discrim, pow_two]
    rw [quadratic_eq_zero_iff ha hdiscrim, List.mem_filter, decide_eq_true_iff]
    simp only [List.mem_cons, List.not_mem_nil, or_false]
    rw [or_comm]

theorem mem_crossings_iff : t ∈ s.crossings start goal ↔
    (t ∈ s.levelCrossings start goal ∨ t ∈ s.uprightCrossings start goal ∨
      Scalar.epsilon < s.cornerRadius ∧
        ∃ corner ∈ s.cornerCenters, t ∈ s.arcCrossings start goal corner) ∧
    -Scalar.epsilon ≤ t ∧ t ≤ 1 + Scalar.epsilon := by
  have hcrossings : s.crossings start goal =
      (s.levelCrossings start goal ++ s.uprightCrossings start goal ++
        if Scalar.epsilon < s.cornerRadius then
          s.cornerCenters.flatMap (s.arcCrossings start goal) else []).filter
        fun t => -Scalar.epsilon ≤ t ∧ t ≤ 1 + Scalar.epsilon := rfl
  rw [hcrossings, List.mem_filter, decide_eq_true_iff]
  split
  · next hround => simp [hround]
  · next hsharp => simp [hsharp]

/-! ## Corners -/

theorem cornerCenters_eq (s : Shape ℝ) : s.cornerCenters =
    [⟨s.center.x - s.innerX, s.center.y - s.innerY⟩, ⟨s.center.x + s.innerX, s.center.y - s.innerY⟩,
      ⟨s.center.x + s.innerX, s.center.y + s.innerY⟩,
      ⟨s.center.x - s.innerX, s.center.y + s.innerY⟩] := by
  have hleft : s.left + s.cornerRadius = s.center.x - s.innerX := by
    show s.center.x - s.width / 2 + s.cornerRadius = _
    rw [innerX]
    ring
  have hright : s.right - s.cornerRadius = s.center.x + s.innerX := by
    show s.center.x + s.width / 2 - s.cornerRadius = _
    rw [innerX]
    ring
  have htop : s.top + s.cornerRadius = s.center.y - s.innerY := by
    show s.center.y - s.height / 2 + s.cornerRadius = _
    rw [innerY]
    ring
  have hbottom : s.bottom - s.cornerRadius = s.center.y + s.innerY := by
    show s.center.y + s.height / 2 - s.cornerRadius = _
    rw [innerY]
    ring
  rw [← hleft, ← hright, ← htop, ← hbottom]
  rfl

/-- The centers of the arcs are points of the inner rectangle. -/
theorem Roomy.off_corner (h : s.Roomy) (hcorner : corner ∈ s.cornerCenters) :
    s.offX corner = s.innerX ∧ s.offY corner = s.innerY := by
  have hx : |s.innerX| = s.innerX := abs_of_nonneg h.innerX_nonneg
  have hy : |s.innerY| = s.innerY := abs_of_nonneg h.innerY_nonneg
  rw [cornerCenters_eq] at hcorner
  simp only [List.mem_cons, List.not_mem_nil, or_false] at hcorner
  rcases hcorner with rfl | rfl | rfl | rfl <;> simp [offX, offY, hx, hy]

/-- A coordinate that is not less than `bound` lies outward of the bound on its own side. -/
theorem exists_outward {x center bound : ℝ} (hbound : 0 ≤ bound) (h : bound ≤ |x - center|) :
    ∃ edge, (edge = center - bound ∨ edge = center + bound) ∧
      (x - edge) ^ 2 = (|x - center| - bound) ^ 2 ∧ 0 ≤ (x - edge) * (edge - center) := by
  rcases le_or_gt center x with hside | hside
  · rw [abs_of_nonneg (sub_nonneg.2 hside)] at h ⊢
    refine ⟨center + bound, .inr rfl, by ring, ?_⟩
    exact mul_nonneg (by linarith) (by linarith)
  · rw [abs_of_neg (sub_neg.2 hside)] at h ⊢
    refine ⟨center - bound, .inl rfl, by ring, ?_⟩
    exact mul_nonneg_of_nonpos_of_nonpos (by linarith) (by linarith)

/-- A point beside a corner of the inner rectangle lies outward of the center of the arc there. -/
theorem Roomy.exists_corner (h : s.Roomy) {p : Point ℝ} (hx : s.innerX ≤ s.offX p)
    (hy : s.innerY ≤ s.offY p) : ∃ corner ∈ s.cornerCenters,
      (p.x - corner.x) ^ 2 + (p.y - corner.y) ^ 2 =
        (s.offX p - s.innerX) ^ 2 + (s.offY p - s.innerY) ^ 2 ∧
      0 ≤ (p.x - corner.x) * (corner.x - s.center.x) ∧
      0 ≤ (p.y - corner.y) * (corner.y - s.center.y) := by
  obtain ⟨x, hside, hxsq, hxout⟩ := exists_outward h.innerX_nonneg hx
  obtain ⟨y, hlevel, hysq, hyout⟩ := exists_outward h.innerY_nonneg hy
  refine ⟨⟨x, y⟩, ?_, congrArg₂ (· + ·) hxsq hysq, hxout, hyout⟩
  rw [cornerCenters_eq]
  rcases hside with rfl | rfl <;> rcases hlevel with rfl | rfl <;> simp

/-! ## Where what is tested lies -/

theorem Roomy.gap_le_of_arc (h : s.Roomy) (apart : start ≠ goal)
    (hcorner : corner ∈ s.cornerCenters) (tested : t ∈ s.arcCrossings start goal corner) :
    s.gap (start.between goal t) ≤ s.cornerRadius := by
  obtain ⟨hx, hy⟩ := h.off_corner hcorner
  refine (gap_le_of_inner hx.le hy.le).trans ?_
  rw [((mem_arcCrossings_iff apart).1 tested).1, Real.sqrt_sq h.radius_nonneg]

/-- What is tested lies on a straight side, up to the tolerance, or inside the outline. -/
theorem Roomy.nearOutline_or_enclosed (h : s.Roomy) (apart : start ≠ goal)
    (tested : t ∈ s.crossings start goal) :
    s.NearOutline (start.between goal t) ∨ s.gap (start.between goal t) ≤ s.cornerRadius := by
  obtain ⟨hlevel | hupright | ⟨-, corner, hcorner, harc⟩, -⟩ := mem_crossings_iff.1 tested
  · obtain ⟨-, hline, hbeside⟩ := h.mem_levelCrossings_iff.1 hlevel
    exact .inl (h.nearOutline_of_level hline hbeside)
  · obtain ⟨-, hline, hbeside⟩ := h.mem_uprightCrossings_iff.1 hupright
    exact .inl (nearOutline_of_transposed (h.transposed.nearOutline_of_level hline hbeside))
  · exact .inr (h.gap_le_of_arc apart hcorner harc)

theorem Roomy.gap_le_of_mem_crossings (h : s.Roomy) (apart : start ≠ goal)
    (tested : t ∈ s.crossings start goal) :
    s.gap (start.between goal t) ≤ s.cornerRadius + Scalar.tolerance := by
  have htolerance : (0 : ℝ) ≤ Scalar.tolerance := Scalar.tolerance_pos.le
  obtain ⟨hlevel | hupright | ⟨-, corner, hcorner, harc⟩, -⟩ := mem_crossings_iff.1 tested
  · obtain ⟨-, hline, hbeside⟩ := h.mem_levelCrossings_iff.1 hlevel
    rw [add_comm]
    exact gap_le_add htolerance h.radius_nonneg hbeside (hline.trans s.halfHeight_eq).le
  · obtain ⟨-, hline, hbeside⟩ := h.mem_uprightCrossings_iff.1 hupright
    exact gap_le_add h.radius_nonneg htolerance (hline.trans s.halfWidth_eq).le hbeside
  · linarith [h.gap_le_of_arc apart hcorner harc]

/-! ## Entering -/

theorem between_zero (start goal : Point ℝ) : start.between goal 0 = start := by
  simp [Point.between]

theorem between_one (start goal : Point ℝ) : start.between goal 1 = goal := by
  simp [Point.between]

theorem Roomy.mem_crossings_of_level (h : s.Roomy) (ht : 0 ≤ t) (ht' : t ≤ 1)
    (line : s.offY (start.between s.center t) = s.height / 2)
    (beside : s.offX (start.between s.center t) ≤ s.innerX + Scalar.tolerance) :
    t ∈ s.crossings start s.center := by
  have hpos := Scalar.epsilon_pos
  -- the start is even further up or down, so that the way is steep enough to be tested
  have hsteep : Scalar.epsilon < |s.center.y - start.y| := by
    rw [abs_sub_comm]
    exact h.lt_halfHeight.trans_le (line.symm.le.trans (offY_between_le ht ht'))
  exact mem_crossings_iff.2 ⟨.inl (h.mem_levelCrossings_iff.2 ⟨hsteep, line, beside⟩),
    by linarith, by linarith⟩

theorem Roomy.mem_crossings_of_upright (h : s.Roomy) (ht : 0 ≤ t) (ht' : t ≤ 1)
    (line : s.offX (start.between s.center t) = s.width / 2)
    (beside : s.offY (start.between s.center t) ≤ s.innerY + Scalar.tolerance) :
    t ∈ s.crossings start s.center := by
  have hpos := Scalar.epsilon_pos
  have hsteep : Scalar.epsilon < |s.center.x - start.x| := by
    rw [abs_sub_comm]
    exact h.lt_halfWidth.trans_le (line.symm.le.trans (offX_between_le ht ht'))
  exact mem_crossings_iff.2 ⟨.inr (.inl (h.mem_uprightCrossings_iff.2 ⟨hsteep, line, beside⟩)),
    by linarith, by linarith⟩

/-- With a radius that counts, the points of the outline on the way are among those tested. -/
theorem Roomy.mem_crossings_of_onOutline (h : s.Roomy) (apart : start ≠ s.center)
    (round : Scalar.epsilon < s.cornerRadius) (ht : 0 ≤ t) (ht' : t ≤ 1)
    (met : s.OnOutline (start.between s.center t)) : t ∈ s.crossings start s.center := by
  have hpos := Scalar.epsilon_pos
  have htolerance := Scalar.tolerance_pos
  rcases met with ⟨hx, hy⟩ | ⟨hx, hy⟩ | ⟨hx, hy, hcircle⟩
  · exact h.mem_crossings_of_level ht ht' hy (by linarith)
  · exact h.mem_crossings_of_upright ht ht' hx (by linarith)
  · obtain ⟨corner, hcorner, hdistance, hxout, hyout⟩ := h.exists_corner hx hy
    refine mem_crossings_iff.2 ⟨.inr (.inr ⟨round, corner, hcorner,
      (mem_arcCrossings_iff apart).2 ⟨hdistance.trans hcircle, ?_, ?_⟩⟩), ?_, ?_⟩ <;> linarith

theorem continuous_gap_between : Continuous fun t => s.gap (start.between goal t) := by
  simp only [gap, offX, offY, Point.between]
  fun_prop

theorem gap_center (h : s.Roomy) : s.gap s.center = 0 := by
  have hx := h.innerX_nonneg
  have hy := h.innerY_nonneg
  simp [gap, offX, offY, hx, hy]

/-- The way meets a rounded outline where its distance from the inner rectangle is the radius. -/
theorem Roomy.exists_entry_of_round (h : s.Roomy) (round : Scalar.epsilon < s.cornerRadius)
    (apart : start ≠ s.center) (outside : s.cornerRadius < s.gap start) :
    ∃ t ∈ s.crossings start s.center, t < 1 ∧ s.NearOutline (start.between s.center t) ∧
      ∀ t' < t, s.cornerRadius < s.gap (start.between s.center t') := by
  have hradius : 0 < s.cornerRadius := Scalar.epsilon_pos.trans round
  obtain ⟨t, ⟨ht, ht'⟩, hgap⟩ : s.cornerRadius ∈
      (fun t => s.gap (start.between s.center t)) '' Set.Icc 0 1 := by
    refine intermediate_value_Icc' zero_le_one continuous_gap_between.continuousOn ⟨?_, ?_⟩
    · simpa only [between_one, gap_center h] using hradius.le
    · simpa only [between_zero] using outside.le
  replace hgap : s.gap (start.between s.center t) = s.cornerRadius := hgap
  have hmet := onOutline_of_gap hradius hgap
  refine ⟨t, h.mem_crossings_of_onOutline apart round ht ht' hmet, lt_of_le_of_ne ht' ?_,
    nearOutline_of_onOutline hmet, fun t' before => ?_⟩
  · rintro rfl
    rw [between_one, gap_center h] at hgap
    exact hradius.ne hgap
  · have := gap_between_lt h before ht' (hgap ▸ hradius)
    rwa [hgap] at this

theorem continuous_overhang_between : Continuous fun t => s.overhang (start.between goal t) := by
  simp only [overhang, offX, offY, Point.between]
  fun_prop

theorem Roomy.overhang_center_neg (h : s.Roomy) : s.overhang s.center < 0 := by
  have hwide := Scalar.epsilon_pos.trans h.lt_halfWidth
  have hhigh := Scalar.epsilon_pos.trans h.lt_halfHeight
  simp only [overhang, offX, offY, sub_self, abs_zero, max_lt_iff]
  exact ⟨by linarith, by linarith⟩

/-- With a radius that does not count, what is outside the outline is outside the rectangle around
    it. -/
theorem Roomy.overhang_nonneg_of_sharp (h : s.Roomy) (sharp : s.cornerRadius ≤ Scalar.epsilon)
    (outside : s.cornerRadius + Scalar.tolerance < s.gap start) : 0 ≤ s.overhang start := by
  have htolerance := Scalar.epsilon_le_tolerance
  refine not_lt.1 fun hneg => not_le.2 outside ?_
  obtain ⟨hx, hy⟩ := max_lt_iff.1 hneg
  rw [sub_neg] at hx hy
  calc s.gap start ≤ s.cornerRadius + s.cornerRadius :=
        gap_le_add h.radius_nonneg h.radius_nonneg (hx.le.trans s.halfWidth_eq.le)
          (hy.le.trans s.halfHeight_eq.le)
    _ ≤ s.cornerRadius + Scalar.tolerance := by linarith

/-- The way meets an outline with corners that are as good as sharp where it enters the rectangle
    around the outline. -/
theorem Roomy.exists_entry_of_sharp (h : s.Roomy) (sharp : s.cornerRadius ≤ Scalar.epsilon)
    (outside : s.cornerRadius + Scalar.tolerance < s.gap start) :
    ∃ t ∈ s.crossings start s.center, t < 1 ∧ s.NearOutline (start.between s.center t) ∧
      ∀ t' < t, s.cornerRadius < s.gap (start.between s.center t') := by
  have hwidth := s.halfWidth_eq
  have hheight := s.halfHeight_eq
  have htolerance := Scalar.epsilon_le_tolerance
  have hcenter := h.overhang_center_neg
  obtain ⟨t, ⟨ht, ht'⟩, hentry⟩ : (0 : ℝ) ∈
      (fun t => s.overhang (start.between s.center t)) '' Set.Icc 0 1 := by
    refine intermediate_value_Icc' zero_le_one continuous_overhang_between.continuousOn ⟨?_, ?_⟩
    · simpa only [between_one] using hcenter.le
    · simpa only [between_zero] using h.overhang_nonneg_of_sharp sharp outside
  replace hentry : s.overhang (start.between s.center t) = 0 := hentry
  have hbefore : t < 1 := by
    refine lt_of_le_of_ne ht' ?_
    rintro rfl
    rw [between_one] at hentry
    exact hcenter.ne hentry
  have hx : s.offX (start.between s.center t) - s.width / 2 ≤ 0 := hentry ▸ le_max_left _ _
  have hy : s.offY (start.between s.center t) - s.height / 2 ≤ 0 := hentry ▸ le_max_right _ _
  -- the rectangle is entered through the left or right side, or through the top or the bottom
  rcases max_choice (s.offX (start.between s.center t) - s.width / 2)
    (s.offY (start.between s.center t) - s.height / 2) with hchoice | hchoice
  · have hline : s.offX (start.between s.center t) = s.width / 2 :=
      sub_eq_zero.1 (hchoice.symm.trans hentry)
    have hbeside : s.offY (start.between s.center t) ≤ s.innerY + Scalar.tolerance := by linarith
    refine ⟨t, h.mem_crossings_of_upright ht ht' hline hbeside, hbefore,
      nearOutline_of_transposed (h.transposed.nearOutline_of_level hline hbeside),
      fun t' earlier => h.lt_gap_of_offX ?_⟩
    have hwide : 0 < s.width / 2 := Scalar.epsilon_pos.trans h.lt_halfWidth
    rw [← hline] at hwide ⊢
    exact offX_between_lt earlier ht' hwide
  · have hline : s.offY (start.between s.center t) = s.height / 2 :=
      sub_eq_zero.1 (hchoice.symm.trans hentry)
    have hbeside : s.offX (start.between s.center t) ≤ s.innerX + Scalar.tolerance := by linarith
    refine ⟨t, h.mem_crossings_of_level ht ht' hline hbeside, hbefore,
      h.nearOutline_of_level hline hbeside, fun t' earlier => h.lt_gap_of_offY ?_⟩
    have hhigh : 0 < s.height / 2 := Scalar.epsilon_pos.trans h.lt_halfHeight
    rw [← hline] at hhigh ⊢
    exact offY_between_lt earlier ht' hhigh

/-- The point at which the way from outside to the center enters is among those tested. -/
theorem Roomy.exists_entry (h : s.Roomy) (apart : start ≠ s.center)
    (outside : s.cornerRadius + Scalar.tolerance < s.gap start) :
    ∃ t ∈ s.crossings start s.center, t < 1 ∧ s.NearOutline (start.between s.center t) ∧
      ∀ t' < t, s.cornerRadius < s.gap (start.between s.center t') := by
  rcases le_or_gt s.cornerRadius Scalar.epsilon with hsharp | hround
  · exact h.exists_entry_of_sharp hsharp outside
  · exact h.exists_entry_of_round hround apart (by linarith [@Scalar.tolerance_pos])

/-- Nothing is tested at the start or behind it. -/
theorem Roomy.pos_of_mem_crossings (h : s.Roomy) (apart : start ≠ s.center)
    (outside : s.cornerRadius + Scalar.tolerance < s.gap start)
    (tested : t ∈ s.crossings start s.center) : 0 < t := by
  have hreach := h.gap_le_of_mem_crossings apart tested
  have hpos : 0 < s.gap start := by
    linarith [h.radius_nonneg, Scalar.tolerance_pos]
  refine not_le.1 fun hbehind => not_le.2 outside ?_
  rcases hbehind.lt_or_eq with hbehind | rfl
  · have := gap_between_lt h hbehind zero_le_one (by rwa [between_zero])
    rw [between_zero] at this
    linarith
  · rwa [between_zero] at hreach

/-! ## The first crossing -/

/-- Whoever is outside is further from the center than the shortest length that counts. -/
theorem Roomy.epsilon_lt_distance (h : s.Roomy)
    (outside : s.cornerRadius + Scalar.tolerance < s.gap start) :
    Scalar.epsilon < start.distance s.center := by
  have hgap : s.gap start ≤ start.distance s.center := by
    have hcenter : s.offX s.center ≤ s.innerX ∧ s.offY s.center ≤ s.innerY := by
      simpa [offX, offY] using ⟨h.innerX_nonneg, h.innerY_nonneg⟩
    have hdistance : start.distance s.center =
        √((start.x - s.center.x) ^ 2 + (start.y - s.center.y) ^ 2) := by
      rw [pow_two, pow_two]
      rfl
    exact hdistance ▸ gap_le_of_inner hcenter.1 hcenter.2
  linarith [h.radius_nonneg, Scalar.epsilon_le_tolerance]

/-- From outside, the way to the center crosses the outline: first at a point close to the outline,
    and before that it is not inside. -/
theorem Roomy.exists_firstCrossing (h : s.Roomy) (outside : s.contains start = false) :
    ∃ t, 0 ≤ t ∧ t ≤ 1 ∧
      s.firstCrossing? start s.center = some (start.between s.center t) ∧
      s.NearOutline (start.between s.center t) ∧
      ∀ t' < t, ¬ s.Encloses (start.between s.center t') := by
  have hgap : s.cornerRadius + Scalar.tolerance < s.gap start := by
    rw [← not_le, ← h.enclosesUpTo_iff Scalar.tolerance_pos.le, ← contains_iff, outside]
    exact Bool.false_ne_true
  have hdistance := h.epsilon_lt_distance hgap
  have apart : start ≠ s.center := by
    rintro heq
    rw [heq, gap_center h] at hgap
    linarith [h.radius_nonneg, Scalar.tolerance_pos]
  obtain ⟨entry, hentry, hbefore, hnear, hsooner⟩ := h.exists_entry apart hgap
  let parameters := (s.crossings start s.center).map (Scalar.clamp · 0 1)
  have hfirst : s.firstCrossing? start s.center =
      parameters.min?.map (start.between s.center) := by
    rw [← Scalar.earliest?_real, firstCrossing?, if_neg (not_le.2 hdistance), outside]
    rfl
  have hclamp {t : ℝ} (ht : t ∈ s.crossings start s.center) : Scalar.clamp t 0 1 = min t 1 := by
    rw [Scalar.clamp_real, max_eq_left (h.pos_of_mem_crossings apart hgap ht).le]
  have hmem : entry ∈ parameters :=
    List.mem_map.2 ⟨entry, hentry, (hclamp hentry).trans (min_eq_left hbefore.le)⟩
  obtain ⟨least, hleast⟩ := Option.isSome_iff_exists.1 (List.isSome_min?_of_mem hmem)
  obtain ⟨hamong, hle⟩ := List.min?_eq_some_iff.1 hleast
  obtain ⟨t, ht, hclamped⟩ := List.mem_map.1 hamong
  -- the least parameter does not come after the entry, so that it was not brought back to the goal
  obtain rfl : t = least := by
    have hlt : least < 1 := (hle entry hmem).trans_lt hbefore
    rw [hclamp ht] at hclamped
    rcases min_choice t 1 with hchoice | hchoice
    · exact hchoice.symm.trans hclamped
    · exact absurd (hchoice.symm.trans hclamped) hlt.ne'
  have hsooner' : ∀ t' < t, s.cornerRadius < s.gap (start.between s.center t') :=
    fun t' earlier => hsooner t' (earlier.trans_le (hle entry hmem))
  refine ⟨t, (h.pos_of_mem_crossings apart hgap ht).le, ((hle entry hmem).trans_lt hbefore).le,
    by rw [hfirst, hleast, Option.map_some], ?_,
    fun t' earlier henclosed => not_le.2 (hsooner' t' earlier) (h.encloses_iff.1 henclosed)⟩
  rcases h.nearOutline_or_enclosed apart ht with hclose | henclosed
  · exact hclose
  · -- inside the outline only the entry itself is left
    have heq : t = entry :=
      (hle entry hmem).antisymm (not_lt.1 fun hlt => not_le.2 (hsooner t hlt) henclosed)
    exact heq ▸ hnear

end QueryCanvas.Shape
