/-
  QueryCanvas.Proofs.Scalar.Order

  How binary64 numbers compare, and the sign of a half.

  A binary64 number is unpacked into its sign, mantissa and exponent, and what
  is not a number into nothing. Two numbers are always comparable
  (`not_lt_iff`). Only a comparison with something that is not a number is false
  both ways. A half has the sign of the whole, also where it is rounded to zero
  (`sign?_half`).
-/

import Mathlib
import QueryCanvas.Scalar.Binary64

namespace QueryCanvas.Binary64

open Float.Model (Format UnpackedFloat)
open Float.Model.UnpackedFloat (Sign Accuracy unpackExponent unpackMantissa unpackSign
  packComponents roundWithAccuracy)

/-! ## Comparisons -/

theorem lt_iff {x y : Float} :
    x < y ↔ x.toModel.unpack.compare y.toModel.unpack = some .lt := by
  show (decide _ : Bool) = true ↔ _
  simp [LT.lt, Float.Model.lt, UnpackedFloat.lt]

theorem le_iff {x y : Float} :
    x ≤ y ↔ ∃ o, x.toModel.unpack.compare y.toModel.unpack = some o ∧ o.isLE = true := by
  show (decide _ : Bool) = true ↔ _
  simp only [LE.le, Float.Model.le, UnpackedFloat.le, decide_eq_true_eq, Option.any_eq_true]

theorem compare_swap (a b : UnpackedFloat) : b.compare a = (a.compare b).map Ordering.swap := by
  rcases a with (_ | _) | _ | (_ | _) | ⟨_ | _, m, e, hm⟩ <;>
    rcases b with (_ | _) | _ | (_ | _) | ⟨_ | _, n, f, hn⟩ <;>
    first
    | rfl
    | simp [UnpackedFloat.compare, Ordering.swap_then, Int.compare_swap, Nat.compare_swap]

theorem compare_eq_none_iff (a b : UnpackedFloat) :
    a.compare b = none ↔ a.isNaN = true ∨ b.isNaN = true := by
  rcases a with (_ | _) | _ | (_ | _) | ⟨_ | _, m, e, hm⟩ <;>
    rcases b with (_ | _) | _ | (_ | _) | ⟨_ | _, n, f, hn⟩ <;>
    simp [UnpackedFloat.compare, UnpackedFloat.isNaN]

/-- The sign of a zero does not count. -/
theorem compare_zero (a : UnpackedFloat) (s s' : Sign) :
    a.compare (.zero s) = a.compare (.zero s') := by
  rcases a with (_ | _) | _ | (_ | _) | ⟨_ | _, m, e, hm⟩ <;> rfl

/-- Of two numbers, one is not less than the other exactly if the other is at most as great. -/
theorem not_lt_iff {x y : Float} (hx : x.isNaN = false) (hy : y.isNaN = false) :
    ¬ x < y ↔ y ≤ x := by
  have hsome : x.toModel.unpack.compare y.toModel.unpack ≠ none := by
    rw [Ne, compare_eq_none_iff, not_or]
    exact ⟨ne_true_of_eq_false hx, ne_true_of_eq_false hy⟩
  obtain ⟨o, ho⟩ := Option.ne_none_iff_exists'.1 hsome
  rw [lt_iff, le_iff, ho, compare_swap, ho]
  cases o <;> simp

theorem not_lt_of_isNaN {x y : Float} (h : x.isNaN = true ∨ y.isNaN = true) : ¬ x < y := by
  rw [lt_iff, (compare_eq_none_iff _ _).2 h]
  simp

theorem isNaN_of_le {x y : Float} (h : x ≤ y) : x.isNaN = false ∧ y.isNaN = false := by
  obtain ⟨o, ho, -⟩ := le_iff.1 h
  have hnone := (compare_eq_none_iff x.toModel.unpack y.toModel.unpack).2
  refine ⟨Bool.eq_false_iff.2 fun hx => ?_, Bool.eq_false_iff.2 fun hy => ?_⟩
  · cases ho.symm.trans (hnone (.inl hx))
  · cases ho.symm.trans (hnone (.inr hy))

theorem le_refl {x : Float} (h : x.isNaN = false) : x ≤ x := by
  rw [← not_lt_iff h h, lt_iff]
  intro hlt
  have hgt := compare_swap x.toModel.unpack x.toModel.unpack
  rw [hlt] at hgt
  cases hgt

/-- What is at most zero is at most any number that is zero itself. -/
theorem le_of_le_zero {x y : Float} (hx : x ≤ 0.0) (zero : 0.0 ≤ y) (small : ¬ (0.0 : Float) < y) :
    x ≤ y := by
  obtain ⟨o, ho, hle⟩ := le_iff.1 zero
  -- no other number is neither below nor above zero
  have hy : ∃ s, y.toModel.unpack = .zero s := by
    have hzero : (0.0 : Float).toModel.unpack = .zero .positive := rfl
    rw [lt_iff] at small
    rw [hzero] at ho small
    rcases hunpacked : y.toModel.unpack with (_ | _) | _ | s | ⟨_ | _, m, e, hm⟩
    case zero => exact ⟨s, rfl⟩
    all_goals
      rw [hunpacked] at ho small
      cases o <;> simp_all [UnpackedFloat.compare]
  obtain ⟨s, hs⟩ := hy
  obtain ⟨o', ho', hle'⟩ := le_iff.1 hx
  exact le_iff.2 ⟨o', by rw [hs, compare_zero _ s .positive]; exact ho', hle'⟩

/-! ## Signs -/

/-- The sign of a number. What is not a number has none. -/
def sign? : UnpackedFloat → Option Sign
  | .notANumber => none
  | .infinity s | .zero s | .finite s .. => some s

theorem isNaN_eq_false_iff {a : UnpackedFloat} : a.isNaN = false ↔ ∃ s, sign? a = some s := by
  cases a <;> simp [UnpackedFloat.isNaN, sign?]

theorem sign?_of_pos {x : Float} (h : 0.0 < x) : sign? x.toModel.unpack = some .positive := by
  have hzero : (0.0 : Float).toModel.unpack = .zero .positive := rfl
  rw [lt_iff, hzero] at h
  rcases hunpacked : x.toModel.unpack with (_ | _) | _ | s | ⟨_ | _, m, e, hm⟩ <;>
    rw [hunpacked] at h <;> simp_all [UnpackedFloat.compare, sign?]

theorem nonneg_of_sign? {x : Float} (h : sign? x.toModel.unpack = some .positive) : 0.0 ≤ x := by
  have hzero : (0.0 : Float).toModel.unpack = .zero .positive := rfl
  rw [le_iff, hzero]
  rcases hunpacked : x.toModel.unpack with (_ | _) | _ | s | ⟨_ | _, m, e, hm⟩ <;>
    rw [hunpacked] at h <;> simp_all [UnpackedFloat.compare, sign?]

/-! ## Packing -/

theorem ofBitVec_toBitVec (s : Sign) : Sign.ofBitVec s.toBitVec = s := by
  cases s <;> rfl

theorem unpackSign_packComponents (s : Sign) (exponent : BitVec 11) (mantissa : BitVec 52) :
    unpackSign (packComponents Format.binary64 s exponent mantissa) = s.toBitVec := by
  simp only [unpackSign, packComponents, BitVec.extractLsb]
  rw [BitVec.extractLsb'_append_eq_of_le (by omega), BitVec.extractLsb'_append_eq_of_le (by omega)]
  cases s <;> rfl

/-- The sign is read back from packed components, unless they stand for what is not a number. -/
theorem sign?_unpack_packComponents (s : Sign) {exponent : BitVec 11} {mantissa : BitVec 52}
    (number : exponent ≠ -1#11 ∨ mantissa = 0#52) :
    sign? (UnpackedFloat.unpack Format.binary64
        (packComponents Format.binary64 s exponent mantissa)) =
      some s := by
  rw [UnpackedFloat.unpack]
  simp only [UnpackedFloat.unpackMantissa_packComponents,
    UnpackedFloat.unpackExponent_packComponents, unpackSign_packComponents, ofBitVec_toBitVec]
  split
  · next hexponent =>
    split
    · rfl
    · next hmantissa => exact absurd number (not_or.2 ⟨not_not_intro hexponent, hmantissa⟩)
  · split
    · split <;> rfl
    · rfl

/-- Packing keeps the sign, also where the number is too great to be packed. -/
theorem sign?_pack (a : UnpackedFloat) : sign? (Float.Model.pack a).unpack = sign? a := by
  show sign? (UnpackedFloat.unpack Format.binary64 (UnpackedFloat.pack Format.binary64 a)) = _
  fun_cases UnpackedFloat.pack Format.binary64 a with
  | case1 => rfl
  | case2 s => exact sign?_unpack_packComponents s (.inr rfl)
  | case3 s => exact sign?_unpack_packComponents s (.inr rfl)
  | case4 s m e hm biased hgreat => exact sign?_unpack_packComponents s (.inr rfl)
  | case5 s m e hm digits biased hsmall hnormal =>
    -- an exponent of all ones would stand for an infinity
    refine sign?_unpack_packComponents s (.inl fun hall => ?_)
    have hbits := congrArg BitVec.toNat hall
    simp only [BitVec.toNat_ofNat] at hbits
    have hbiased : biased + 1 < 2 ^ 11 := Nat.lt_of_not_le hsmall
    change biased % 2 ^ 11 = 2047 at hbits
    omega
  | case6 s m e hm digits biased hsmall hnormal =>
    exact sign?_unpack_packComponents s (.inl (by decide))

/-! ## Halves and bounded numbers -/

theorem sign?_roundWithAccuracy (s : Sign) (m : Nat) (e : Int) (accuracy : Accuracy) :
    sign? (roundWithAccuracy Format.binary64 s m e accuracy) = some s := by
  simp only [roundWithAccuracy]
  split <;> rfl

theorem sign?_half (x : Float) :
    sign? (Scalar.half x).toModel.unpack = sign? x.toModel.unpack := by
  have htwo : (2.0 : Float).toModel.unpack = .finite .positive (2 ^ 52) (-51) (by decide) := rfl
  show sign? (Float.Model.pack
    (.div Format.binary64 x.toModel.unpack (2.0 : Float).toModel.unpack)).unpack = _
  rw [sign?_pack, htwo]
  rcases x.toModel.unpack with (_ | _) | _ | (_ | _) | ⟨_ | _, m, e, hm⟩
  case finite.negative | finite.positive => exact sign?_roundWithAccuracy _ _ _ _
  all_goals rfl

/-- A bounded number lies within the bounds. -/
theorem clamp_within {x hi : Float} (number : x.isNaN = false) (bound : 0.0 ≤ hi) :
    (Scalar.clamp x 0.0 hi).isNaN = false ∧ 0.0 ≤ Scalar.clamp x 0.0 hi ∧
      Scalar.clamp x 0.0 hi ≤ hi := by
  have hzero : (0.0 : Float).isNaN = false := rfl
  have hhi : hi.isNaN = false := (isNaN_of_le bound).2
  have hraised : (if x < 0.0 then 0.0 else x).isNaN = false ∧ 0.0 ≤ if x < 0.0 then 0.0 else x := by
    split
    · exact ⟨hzero, le_refl hzero⟩
    · next hx => exact ⟨number, (not_lt_iff number hzero).1 hx⟩
  simp only [Scalar.clamp]
  generalize (if x < 0.0 then 0.0 else x) = raised at hraised
  split
  · exact ⟨hhi, bound, le_refl hhi⟩
  · next hbelow => exact ⟨hraised.1, hraised.2, (not_lt_iff hhi hraised.1).1 hbelow⟩

/-- What is not a number stays so between any bounds. -/
theorem clamp_of_isNaN {x lo hi : Float} (h : x.isNaN = true) : Scalar.clamp x lo hi = x := by
  simp only [Scalar.clamp, if_neg (not_lt_of_isNaN (.inl h)), if_neg (not_lt_of_isNaN (.inr h))]

end QueryCanvas.Binary64
