/-
  QueryCanvas.Scalar.Exact

  Exact numbers as canvas coordinates. Over the rational numbers nothing is
  rounded but roots, so that where the segments between nodes cross their outlines
  can be worked out. Over the real numbers the formulas of the geometry are read
  without any rounding.
-/

import Mathlib.Algebra.Order.Group.Unbundled.Abs
import Mathlib.Algebra.Order.Ring.Rat
import Mathlib.Analysis.Real.Sqrt
import Mathlib.Data.Rat.Sqrt
import QueryCanvas.Geometry.Crossing
import QueryCanvas.Scalar

namespace QueryCanvas

/-! ## Rational numbers -/

/-- A root is rounded down, in numerator and denominator, if it is not rational. -/
instance : Scalar ℚ where
  decidableLT := inferInstance
  decidableLE := inferInstance
  zero := 0
  one := 1
  two := 2
  four := 4
  epsilon := 1 / 1000000000
  tolerance := 1 / 1000000
  abs x := |x|
  sqrt := Rat.sqrt
  hypot x y := Rat.sqrt (x * x + y * y)
  smaller := min
  greater := max
  precedes x y := x < y

/-- A segment of length 25 towards the center of a circle of radius 5 enters it after 20. -/
example :
    (Shape.circle (⟨20, 15⟩ : Point ℚ) 10).firstCrossing? ⟨0, 0⟩ ⟨20, 15⟩ = some ⟨16, 12⟩ := by
  decide +kernel

/-! ## Real numbers -/

noncomputable instance : Scalar ℝ where
  decidableLT := inferInstance
  decidableLE := inferInstance
  zero := 0
  one := 1
  two := (2 : ℕ)
  four := (4 : ℕ)
  epsilon := 1 / 1000000000
  tolerance := 1 / 1000000
  abs x := |x|
  sqrt := Real.sqrt
  hypot x y := √(x * x + y * y)
  smaller := min
  greater := max
  precedes x y := decide (x < y)

namespace Scalar

/-! ## The operations over real numbers -/

theorem epsilon_pos : (0 : ℝ) < epsilon := by norm_num [epsilon]

theorem epsilon_le_tolerance : (epsilon : ℝ) ≤ tolerance := by norm_num [epsilon, tolerance]

theorem tolerance_pos : (0 : ℝ) < tolerance := epsilon_pos.trans_le epsilon_le_tolerance

theorem clamp_real {x lo hi : ℝ} : clamp x lo hi = min (max x lo) hi := by
  have hraised : (if x < lo then lo else x) = max x lo := by
    split
    · next h => exact (max_eq_right h.le).symm
    · next h => exact (max_eq_left (not_lt.1 h)).symm
  simp only [clamp, hraised]
  split
  · next h => exact (min_eq_right h.le).symm
  · next h => exact (min_eq_left (not_lt.1 h)).symm

/-- The earliest of several real numbers is the least of them. -/
theorem earliest?_real (l : List ℝ) : earliest? l = l.min? := by
  have hmin (best y : ℝ) : (if (precedes y best : Bool) then y else best) = min best y := by
    by_cases h : y < best
    · rw [min_eq_right h.le]
      exact if_pos (decide_eq_true h)
    · rw [min_eq_left (not_lt.1 h)]
      exact if_neg (by simpa [precedes] using h)
  cases l with
  | nil => rfl
  | cons x xs => simp only [earliest?, List.min?_cons', hmin]

end Scalar

end QueryCanvas
