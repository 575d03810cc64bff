/-
  QueryCanvas.Proofs.Geometry.Region

  What an outline encloses, over the real numbers.

  The centers of the corner arcs are the corners of an inner rectangle, and the
  outline runs around it at the distance of the corner radius. So whether a
  point is enclosed depends on how far it lies from the inner rectangle
  (`Shape.gap`). On the way to the center this distance only shrinks, and it
  shrinks strictly until the inner rectangle is reached (`Shape.gap_between_lt`).
-/

import Mathlib
import QueryCanvas.Geometry.Shape
import QueryCanvas.Scalar.Exact

namespace QueryCanvas

/-- The point on the other side of the diagonal. -/
def Point.transposed (p : Point ℝ) : Point ℝ := ⟨p.y, p.x⟩

namespace Shape

variable {s : Shape ℝ} {p : Point ℝ} {slack : ℝ}

/-! ## Outlines and what they enclose -/

/-- How far a point lies to the left or right of the center. -/
def offX (s : Shape ℝ) (p : Point ℝ) : ℝ := |p.x - s.center.x|

/-- How far a point lies above or below the center. -/
def offY (s : Shape ℝ) (p : Point ℝ) : ℝ := |p.y - s.center.y|

/-- Half the width of the inner rectangle, whose corners are the centers of the arcs. -/
noncomputable def innerX (s : Shape ℝ) : ℝ := s.width / 2 - s.cornerRadius

/-- Half the height of the inner rectangle. -/
noncomputable def innerY (s : Shape ℝ) : ℝ := s.height / 2 - s.cornerRadius

theorem halfWidth_eq (s : Shape ℝ) : s.width / 2 = s.innerX + s.cornerRadius :=
  (sub_add_cancel _ _).symm

theorem halfHeight_eq (s : Shape ℝ) : s.height / 2 = s.innerY + s.cornerRadius :=
  (sub_add_cancel _ _).symm

/-- The point lies on the outline: on a straight side, which ends where the corner arcs begin, or on
    an arc. -/
def OnOutline (s : Shape ℝ) (p : Point ℝ) : Prop :=
  s.offX p ≤ s.innerX ∧ s.offY p = s.height / 2 ∨
  s.offX p = s.width / 2 ∧ s.offY p ≤ s.innerY ∨
  s.innerX ≤ s.offX p ∧ s.innerY ≤ s.offY p ∧
    (s.offX p - s.innerX) ^ 2 + (s.offY p - s.innerY) ^ 2 = s.cornerRadius ^ 2

/-- The point lies inside the outline or at most `slack` outside it. -/
def EnclosesUpTo (s : Shape ℝ) (slack : ℝ) (p : Point ℝ) : Prop :=
  s.offX p ≤ s.width / 2 + slack ∧ s.offY p ≤ s.height / 2 + slack ∧
    (s.offX p ≤ s.innerX ∨ s.offY p ≤ s.innerY ∨
      √((s.offX p - s.innerX) ^ 2 + (s.offY p - s.innerY) ^ 2) ≤ s.cornerRadius + slack)

/-- The point lies inside the outline or on it. -/
def Encloses (s : Shape ℝ) (p : Point ℝ) : Prop := s.EnclosesUpTo 0 p

/-- What is contained is enclosed up to the tolerance. -/
theorem contains_iff : s.contains p = true ↔ s.EnclosesUpTo Scalar.tolerance p := by
  have hcontains : s.contains p =
      if s.width / 2 + Scalar.tolerance < s.offX p ∨ s.height / 2 + Scalar.tolerance < s.offY p
      then false
      else if s.offX p ≤ s.innerX ∨ s.offY p ≤ s.innerY then true
      else decide (√((s.offX p - s.innerX) * (s.offX p - s.innerX) +
        (s.offY p - s.innerY) * (s.offY p - s.innerY)) ≤ s.cornerRadius + Scalar.tolerance) := rfl
  rw [hcontains, EnclosesUpTo]
  split
  · next hfar =>
    simp only [reduceCtorEq, false_iff]
    rintro ⟨hx, hy, -⟩
    exact hfar.elim (not_lt.2 hx) (not_lt.2 hy)
  · next hnear =>
    rw [not_or, not_lt, not_lt] at hnear
    split
    · next hinner => simp [hnear, ← or_assoc, hinner]
    · next hcorner =>
      rw [not_or] at hcorner
      simp [hnear, hcorner, pow_two]

/-- The sides are longer than twice the shortest length that counts, and the corner radius fits. -/
structure Roomy (s : Shape ℝ) : Prop where
  radius_nonneg : 0 ≤ s.cornerRadius
  innerX_nonneg : 0 ≤ s.innerX
  innerY_nonneg : 0 ≤ s.innerY
  lt_halfWidth : Scalar.epsilon < s.width / 2
  lt_halfHeight : Scalar.epsilon < s.height / 2

theorem roomy_rounded {center : Point ℝ} {width height : ℝ} (radius : ℝ)
    (wide : 2 * Scalar.epsilon < width) (high : 2 * Scalar.epsilon < height) :
    (rounded center width height radius).Roomy := by
  have hpos := Scalar.epsilon_pos
  have hradius : (rounded center width height radius).cornerRadius =
      min (max radius 0) (min width height / 2) := by
    have hlargest : 0 ≤ min width height / 2 := by
      have := lt_min wide high
      linarith
    show Scalar.clamp radius 0 (max (min width height / 2) 0) = _
    rw [Scalar.clamp_real, max_eq_left hlargest]
  have hnonneg : 0 ≤ (rounded center width height radius).cornerRadius := by
    rw [hradius]
    have := lt_min wide high
    exact le_min (le_max_right _ _) (by linarith)
  have hle : (rounded center width height radius).cornerRadius ≤ min width height / 2 :=
    hradius ▸ min_le_right _ _
  have hwidth := min_le_left width height
  have hheight := min_le_right width height
  refine ⟨hnonneg, ?_, ?_, ?_, ?_⟩
  · show 0 ≤ width / 2 - _
    linarith
  · show 0 ≤ height / 2 - _
    linarith
  · show _ < width / 2
    linarith
  · show _ < height / 2
    linarith

/-! ## Distances from the inner rectangle and from the one around the outline -/

/-- How far a point lies from the inner rectangle. -/
noncomputable def gap (s : Shape ℝ) (p : Point ℝ) : ℝ :=
  √(max (s.offX p - s.innerX) 0 ^ 2 + max (s.offY p - s.innerY) 0 ^ 2)

/-- How far a point lies outside the rectangle around the outline; inside, it is negative. -/
noncomputable def overhang (s : Shape ℝ) (p : Point ℝ) : ℝ :=
  max (s.offX p - s.width / 2) (s.offY p - s.height / 2)

theorem Roomy.enclosesUpTo_iff (h : s.Roomy) (hslack : 0 ≤ slack) :
    s.EnclosesUpTo slack p ↔ s.gap p ≤ s.cornerRadius + slack := by
  have hreach : 0 ≤ s.cornerRadius + slack := add_nonneg h.radius_nonneg hslack
  rw [EnclosesUpTo, halfWidth_eq, halfHeight_eq, add_assoc, add_assoc, gap]
  rcases le_or_gt (s.offX p) s.innerX with hx | hx
  · -- above or below the inner rectangle, or inside it
    rw [max_eq_right (sub_nonpos.2 hx), zero_pow two_ne_zero, zero_add,
      Real.sqrt_sq (le_max_right _ _), max_le_iff]
    constructor
    · rintro ⟨-, hy, -⟩
      exact ⟨by linarith, hreach⟩
    · rintro ⟨hy, -⟩
      exact ⟨by linarith, by linarith, .inl hx⟩
  · rcases le_or_gt (s.offY p) s.innerY with hy | hy
    · -- to the left or right of it
      rw [max_eq_right (sub_nonpos.2 hy), zero_pow two_ne_zero, add_zero,
        Real.sqrt_sq (le_max_right _ _), max_le_iff]
      constructor
      · rintro ⟨hx', -⟩
        exact ⟨by linarith, hreach⟩
      · rintro ⟨hx', -⟩
        exact ⟨by linarith, by linarith, .inr (.inl hy)⟩
    · -- beside one of its corners
      rw [max_eq_left (sub_pos.2 hx).le, max_eq_left (sub_pos.2 hy).le]
      constructor
      · rintro ⟨-, -, hx' | hy' | hcorner⟩
        · exact absurd hx' (not_le.2 hx)
        · exact absurd hy' (not_le.2 hy)
        · exact hcorner
      · intro hcorner
        have hsquare := (Real.sqrt_le_iff.1 hcorner).2
        refine ⟨?_, ?_, .inr (.inr hcorner)⟩
        · have := abs_le_of_sq_le_sq' (a := s.offX p - s.innerX) (by nlinarith) hreach
          linarith
        · have := abs_le_of_sq_le_sq' (a := s.offY p - s.innerY) (by nlinarith) hreach
          linarith

theorem Roomy.encloses_iff (h : s.Roomy) : s.Encloses p ↔ s.gap p ≤ s.cornerRadius := by
  rw [Encloses, h.enclosesUpTo_iff le_rfl, add_zero]

theorem Roomy.lt_gap_of_offX (h : s.Roomy) (off : s.width / 2 < s.offX p) :
    s.cornerRadius < s.gap p := by
  refine not_le.1 fun hle => not_le.2 off ?_
  simpa using (h.encloses_iff.2 hle).1

theorem Roomy.lt_gap_of_offY (h : s.Roomy) (off : s.height / 2 < s.offY p) :
    s.cornerRadius < s.gap p := by
  refine not_le.1 fun hle => not_le.2 off ?_
  simpa using (h.encloses_iff.2 hle).2.1

theorem gap_le_add {a b : ℝ} (ha : 0 ≤ a) (hb : 0 ≤ b) (hx : s.offX p ≤ s.innerX + a)
    (hy : s.offY p ≤ s.innerY + b) : s.gap p ≤ a + b := by
  have hxa : max (s.offX p - s.innerX) 0 ≤ a := max_le (by linarith) ha
  have hyb : max (s.offY p - s.innerY) 0 ≤ b := max_le (by linarith) hb
  refine Real.sqrt_le_iff.2 ⟨add_nonneg ha hb, ?_⟩
  calc _ ≤ a ^ 2 + b ^ 2 := add_le_add (pow_le_pow_left₀ (le_max_right _ _) hxa 2)
        (pow_le_pow_left₀ (le_max_right _ _) hyb 2)
    _ ≤ (a + b) ^ 2 := by nlinarith [mul_nonneg ha hb]

/-- A point is at least as far from every point of the inner rectangle. -/
theorem gap_le_of_inner {inner : Point ℝ} (hx : s.offX inner ≤ s.innerX)
    (hy : s.offY inner ≤ s.innerY) :
    s.gap p ≤ √((p.x - inner.x) ^ 2 + (p.y - inner.y) ^ 2) := by
  have hxle : max (s.offX p - s.innerX) 0 ≤ |p.x - inner.x| := by
    have := abs_sub_le p.x inner.x s.center.x
    refine max_le ?_ (abs_nonneg _)
    simp only [offX] at hx ⊢
    linarith
  have hyle : max (s.offY p - s.innerY) 0 ≤ |p.y - inner.y| := by
    have := abs_sub_le p.y inner.y s.center.y
    refine max_le ?_ (abs_nonneg _)
    simp only [offY] at hy ⊢
    linarith
  rw [← sq_abs (p.x - inner.x), ← sq_abs (p.y - inner.y)]
  exact Real.sqrt_le_sqrt (add_le_add (pow_le_pow_left₀ (le_max_right _ _) hxle 2)
    (pow_le_pow_left₀ (le_max_right _ _) hyle 2))

/-- The points at the distance of the radius make up the outline. -/
theorem onOutline_of_gap (radius_pos : 0 < s.cornerRadius) (hgap : s.gap p = s.cornerRadius) :
    s.OnOutline p := by
  have hsquare : max (s.offX p - s.innerX) 0 ^ 2 + max (s.offY p - s.innerY) 0 ^ 2 =
      s.cornerRadius ^ 2 := by
    rw [← hgap, gap, Real.sq_sqrt (by positivity)]
  -- what exceeds one side alone exceeds it by the radius
  have hexcess {x : ℝ} (hx : max x 0 ^ 2 = s.cornerRadius ^ 2) : x = s.cornerRadius := by
    have hmax := (pow_left_inj₀ (le_max_right _ _) radius_pos.le two_ne_zero).1 hx
    rcases max_choice x 0 with hchoice | hchoice
    · exact hchoice.symm.trans hmax
    · exact absurd (hchoice.symm.trans hmax) radius_pos.ne
  rw [OnOutline, halfWidth_eq, halfHeight_eq]
  rcases le_or_gt (s.offX p) s.innerX with hx | hx
  · rw [max_eq_right (sub_nonpos.2 hx), zero_pow two_ne_zero, zero_add] at hsquare
    exact .inl ⟨hx, by linarith [hexcess hsquare]⟩
  · rcases le_or_gt (s.offY p) s.innerY with hy | hy
    · rw [max_eq_right (sub_nonpos.2 hy), zero_pow two_ne_zero, add_zero] at hsquare
      exact .inr (.inl ⟨by linarith [hexcess hsquare], hy⟩)
    · rw [max_eq_left (sub_pos.2 hx).le, max_eq_left (sub_pos.2 hy).le] at hsquare
      exact .inr (.inr ⟨hx.le, hy.le, hsquare⟩)

/-! ## Close to the outline -/

/-- The point is at most the tolerance away from the outline. -/
def NearOutline (s : Shape ℝ) (p : Point ℝ) : Prop :=
  ∃ q, s.OnOutline q ∧ p.distance q ≤ Scalar.tolerance

theorem nearOutline_of_onOutline (h : s.OnOutline p) : s.NearOutline p := by
  refine ⟨p, h, ?_⟩
  show √((p.x - p.x) * (p.x - p.x) + (p.y - p.y) * (p.y - p.y)) ≤ _
  simp only [sub_self, mul_zero, add_zero, Real.sqrt_zero]
  exact Scalar.tolerance_pos.le

/-- A point on the line of the top or the bottom is close to the outline if it is not further than
    the tolerance from the straight side. -/
theorem Roomy.nearOutline_of_level (h : s.Roomy) (level : s.offY p = s.height / 2)
    (beside : s.offX p ≤ s.innerX + Scalar.tolerance) : s.NearOutline p := by
  have htolerance : (0 : ℝ) < Scalar.tolerance := Scalar.tolerance_pos
  -- the nearest point of the straight side
  obtain ⟨x, hinner, hnear⟩ : ∃ x, |x - s.center.x| ≤ s.innerX ∧ |p.x - x| ≤ Scalar.tolerance := by
    have hinner := h.innerX_nonneg
    rw [offX, abs_le] at beside
    rcases le_or_gt p.x (s.center.x - s.innerX) with hleft | hleft
    · refine ⟨s.center.x - s.innerX, ?_, ?_⟩ <;> rw [abs_le] <;> constructor <;> linarith
    · rcases le_or_gt (s.center.x + s.innerX) p.x with hright | hright
      · refine ⟨s.center.x + s.innerX, ?_, ?_⟩ <;> rw [abs_le] <;> constructor <;> linarith
      · refine ⟨p.x, ?_, ?_⟩ <;> rw [abs_le] <;> constructor <;> linarith
  refine ⟨⟨x, p.y⟩, .inl ⟨hinner, level⟩, ?_⟩
  show √((p.x - x) * (p.x - x) + (p.y - p.y) * (p.y - p.y)) ≤ _
  rw [sub_self, mul_zero, add_zero, Real.sqrt_mul_self_eq_abs]
  exact hnear

/-! ## Sides exchanged -/

/-- The outline on the other side of the diagonal. -/
def transposed (s : Shape ℝ) : Shape ℝ := ⟨s.center.transposed, s.height, s.width, s.cornerRadius⟩

theorem Roomy.transposed (h : s.Roomy) : s.transposed.Roomy :=
  ⟨h.radius_nonneg, h.innerY_nonneg, h.innerX_nonneg, h.lt_halfHeight, h.lt_halfWidth⟩

theorem onOutline_of_transposed (h : s.transposed.OnOutline p.transposed) : s.OnOutline p := by
  rcases h with ⟨hy, hx⟩ | ⟨hy, hx⟩ | ⟨hy, hx, harc⟩
  · exact .inr (.inl ⟨hx, hy⟩)
  · exact .inl ⟨hx, hy⟩
  · exact .inr (.inr ⟨hx, hy, (add_comm _ _).trans harc⟩)

theorem nearOutline_of_transposed (h : s.transposed.NearOutline p.transposed) :
    s.NearOutline p := by
  obtain ⟨q, hq, hdistance⟩ := h
  refine ⟨q.transposed, onOutline_of_transposed hq, ?_⟩
  have hsame : p.distance q.transposed = p.transposed.distance q :=
    congrArg Real.sqrt (add_comm _ _)
  rwa [hsame]

/-! ## On the way to the center -/

variable {start : Point ℝ} {t t' : ℝ}

theorem offX_between (ht : t ≤ 1) : s.offX (start.between s.center t) = (1 - t) * s.offX start := by
  have hscaled : start.x + (s.center.x - start.x) * t - s.center.x =
      (1 - t) * (start.x - s.center.x) := by ring
  rw [offX, offX, ← abs_of_nonneg (sub_nonneg.2 ht), ← abs_mul, ← hscaled]
  rfl

theorem offY_between (ht : t ≤ 1) : s.offY (start.between s.center t) = (1 - t) * s.offY start := by
  have hscaled : start.y + (s.center.y - start.y) * t - s.center.y =
      (1 - t) * (start.y - s.center.y) := by ring
  rw [offY, offY, ← abs_of_nonneg (sub_nonneg.2 ht), ← abs_mul, ← hscaled]
  rfl

theorem offX_between_le (ht : 0 ≤ t) (ht' : t ≤ 1) :
    s.offX (start.between s.center t) ≤ s.offX start := by
  rw [offX_between ht']
  exact mul_le_of_le_one_left (abs_nonneg _) (by linarith)

theorem offY_between_le (ht : 0 ≤ t) (ht' : t ≤ 1) :
    s.offY (start.between s.center t) ≤ s.offY start := by
  rw [offY_between ht']
  exact mul_le_of_le_one_left (abs_nonneg _) (by linarith)

theorem offX_between_lt (before : t < t') (ht' : t' ≤ 1)
    (off : 0 < s.offX (start.between s.center t')) :
    s.offX (start.between s.center t') < s.offX (start.between s.center t) := by
  rw [offX_between ht'] at off ⊢
  rw [offX_between (before.le.trans ht')]
  exact mul_lt_mul_of_pos_right (by linarith) (pos_of_mul_pos_right off (by linarith))

theorem offY_between_lt (before : t < t') (ht' : t' ≤ 1)
    (off : 0 < s.offY (start.between s.center t')) :
    s.offY (start.between s.center t') < s.offY (start.between s.center t) := by
  rw [offY_between ht'] at off ⊢
  rw [offY_between (before.le.trans ht')]
  exact mul_lt_mul_of_pos_right (by linarith) (pos_of_mul_pos_right off (by linarith))

/-- What a scaled length has over a bound shrinks with the scale. -/
theorem excess_le {length : ℝ} (bound : ℝ) (hlength : 0 ≤ length) (before : t ≤ t') :
    max ((1 - t') * length - bound) 0 ≤ max ((1 - t) * length - bound) 0 := by
  have hscaled : (1 - t') * length ≤ (1 - t) * length :=
    mul_le_mul_of_nonneg_right (by linarith) hlength
  exact max_le_max_right 0 (by linarith)

theorem excess_lt {length bound : ℝ} (hlength : 0 ≤ length) (hbound : 0 ≤ bound)
    (before : t < t') (excess : 0 < max ((1 - t') * length - bound) 0) :
    max ((1 - t') * length - bound) 0 < max ((1 - t) * length - bound) 0 := by
  have hexcess : 0 < (1 - t') * length - bound := by simpa using excess
  have hpos : 0 < length := by
    refine hlength.lt_of_ne fun hzero => ?_
    rw [← hzero] at hexcess
    linarith
  have hscaled : (1 - t') * length < (1 - t) * length :=
    mul_lt_mul_of_pos_right (by linarith) hpos
  rw [max_eq_left hexcess.le]
  exact lt_max_of_lt_left (by linarith)

theorem gap_between_lt (h : s.Roomy) (before : t < t') (ht' : t' ≤ 1)
    (outside : 0 < s.gap (start.between s.center t')) :
    s.gap (start.between s.center t') < s.gap (start.between s.center t) := by
  have hX : 0 ≤ s.offX start := abs_nonneg _
  have hY : 0 ≤ s.offY start := abs_nonneg _
  rw [gap, Real.sqrt_pos, offX_between ht', offY_between ht'] at outside
  rw [gap, gap, offX_between ht', offY_between ht', offX_between (before.le.trans ht'),
    offY_between (before.le.trans ht')]
  refine Real.sqrt_lt_sqrt (by positivity) ?_
  have hxle := pow_le_pow_left₀ (le_max_right _ _) (excess_le s.innerX hX before.le) 2
  have hyle := pow_le_pow_left₀ (le_max_right _ _) (excess_le s.innerY hY before.le) 2
  -- one of the two parts is positive, and this part shrinks strictly
  rcases (le_max_right ((1 - t') * s.offX start - s.innerX) 0).lt_or_eq with hx | hx
  · have hxlt := pow_lt_pow_left₀ (excess_lt hX h.innerX_nonneg before hx) hx.le two_ne_zero
    exact add_lt_add_of_lt_of_le hxlt hyle
  · rcases (le_max_right ((1 - t') * s.offY start - s.innerY) 0).lt_or_eq with hy | hy
    · have hylt := pow_lt_pow_left₀ (excess_lt hY h.innerY_nonneg before hy) hy.le two_ne_zero
      exact add_lt_add_of_le_of_lt hxle hylt
    · rw [← hx, ← hy] at outside
      norm_num at outside

end Shape

end QueryCanvas
