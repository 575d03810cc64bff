/-
  QueryCanvas.Proofs.Scalar.Range

  Which binary64 numbers are finite.

  An unpacked number is bounded by the greatest exponent that it may have. What
  is bounded stays so when it is packed (`Bounded.unpack_pack`), and rounding
  keeps the bound of a number that has 53 bits above it at most
  (`bounded_roundWithAccuracy`). Numbers bounded by the greatest exponent of the
  format are finite: among them the whole numbers of 64 bits, and the quotients
  of finite numbers by eight or more.
-/

import QueryCanvas.Proofs.Scalar.Order

namespace QueryCanvas.Binary64

open Float.Model (Format UnpackedFloat totalExponent)
open Float.Model.UnpackedFloat (Sign Accuracy ExtendedMantissa packComponents unpackExponent
  unpackMantissa roundWithAccuracy)

/-! ## Bounded numbers -/

/-- The exponents of the least and of the greatest numbers. -/
def leastExponent : Int := -1074

def greatestExponent : Int := 971

/-- A number whose exponent is not above a bound. -/
def Bounded (bound : Int) : UnpackedFloat → Prop
  | .zero _ => True
  | .finite _ _ e _ => e ≤ bound
  | .infinity _ | .notANumber => False

/-- The mantissa takes at most 53 bits. -/
def IsNarrow : UnpackedFloat → Prop
  | .finite _ m _ _ => m < 2 ^ 53
  | .zero _ | .infinity _ | .notANumber => True

theorem Bounded.isFinite {bound : Int} : {a : UnpackedFloat} → Bounded bound a → a.isFinite = true
  | .zero _, _ | .finite .., _ => rfl

theorem Bounded.neg {bound : Int} : {a : UnpackedFloat} → Bounded bound a → Bounded bound a.neg
  | .zero _, _ => trivial
  | .finite .., h => h

/-- Components with an exponent that is not all ones are those of a finite number. -/
theorem bounded_packComponents {bound : Int} (s : Sign) {exponent : BitVec 11}
    (mantissa : BitVec 52) (number : exponent ≠ -1#11) (least : leastExponent ≤ bound)
    (below : (exponent.toNat : Int) - 1075 ≤ bound) :
    Bounded bound (UnpackedFloat.unpack Format.binary64
      (packComponents Format.binary64 s exponent mantissa)) := by
  rw [UnpackedFloat.unpack]
  simp only [UnpackedFloat.unpackMantissa_packComponents,
    UnpackedFloat.unpackExponent_packComponents, unpackSign_packComponents, ofBitVec_toBitVec]
  split
  · next hall => exact absurd hall number
  · split
    · next hzero =>
      split
      · trivial
      · subst hzero
        exact least
    · exact below

/-- What is bounded stays so when it is packed, if it is in the range of the format. -/
theorem Bounded.unpack_pack {bound : Int} {a : UnpackedFloat} (h : Bounded bound a)
    (least : leastExponent ≤ bound) (greatest : bound ≤ greatestExponent) :
    Bounded bound (Float.Model.pack a).unpack := by
  show Bounded bound (UnpackedFloat.unpack Format.binary64 (UnpackedFloat.pack Format.binary64 a))
  simp only [leastExponent, greatestExponent] at *
  fun_cases UnpackedFloat.pack Format.binary64 a with
  | case1 => cases h
  | case2 s => cases h
  | case3 s => exact bounded_packComponents s _ (by decide) least (by simp; omega)
  | case4 s m e hm biased hgreat =>
    -- a bound in the range of the format leaves no exponent that is too great
    have he : e ≤ bound := h
    have hbiased : (biased : Int) = max (e + 1023 + 52) 0 := Int.toNat_eq_max _
    have hgreat : 2048 ≤ biased + 1 := hgreat
    omega
  | case5 s m e hm digits biased hsmall hnormal =>
    have he : e ≤ bound := h
    have hbiased : (biased : Int) = max (e + 1023 + 52) 0 := Int.toNat_eq_max _
    have hsmall : biased + 1 < 2048 := Nat.lt_of_not_le hsmall
    have hvalue : (BitVec.ofNat 11 biased).toNat = biased := Nat.mod_eq_of_lt (by omega)
    refine bounded_packComponents s _ (fun hall => ?_) least ?_
    · have hones : (BitVec.ofNat 11 biased).toNat = 2047 := congrArg BitVec.toNat hall
      omega
    · show ((BitVec.ofNat 11 biased).toNat : Int) - 1075 ≤ bound
      omega
  | case6 s m e hm digits biased hsmall hnormal =>
    exact bounded_packComponents s _ (by decide) least (by simp; omega)

theorem Bounded.isFinite_pack {a : UnpackedFloat} (h : Bounded greatestExponent a) :
    (Float.Model.pack a).isFinite = true :=
  (h.unpack_pack (by decide) (Int.le_refl _)).isFinite

/-- The mantissa of a number takes at most 53 bits, and a finite number is bounded. -/
theorem unpack_spec (x : Float) :
    IsNarrow x.toModel.unpack ∧
      (x.isFinite = true → Bounded greatestExponent x.toModel.unpack) := by
  show IsNarrow (UnpackedFloat.unpack Format.binary64 x.toModel.toBits.toBitVec) ∧
    ((UnpackedFloat.unpack Format.binary64 x.toModel.toBits.toBitVec).isFinite = true →
      Bounded greatestExponent (UnpackedFloat.unpack Format.binary64 x.toModel.toBits.toBitVec))
  generalize x.toModel.toBits.toBitVec = bits
  rw [UnpackedFloat.unpack]
  have hexponent : (@unpackExponent Format.binary64 bits).toNat < 2048 := BitVec.isLt _
  have hmantissa : (@unpackMantissa Format.binary64 bits).toNat < 2 ^ 52 := BitVec.isLt _
  split
  · -- an infinity, or not a number
    split
    · exact ⟨trivial, fun hfinite => by cases hfinite⟩
    · exact ⟨trivial, fun hfinite => by cases hfinite⟩
  · next hnotAll =>
    have hbelow : (@unpackExponent Format.binary64 bits).toNat ≠ 2047 :=
      fun hall => hnotAll (BitVec.eq_of_toNat_eq hall)
    split
    · next hzero =>
      -- a zero, or a number below the least one with a full mantissa
      split
      · exact ⟨trivial, fun _ => trivial⟩
      · refine ⟨Nat.lt_trans hmantissa (by decide), fun _ => ?_⟩
        rw [hzero]
        show (-1074 : Int) ≤ 971
        decide
    · refine ⟨(1#1 ++ @unpackMantissa Format.binary64 bits).isLt, fun _ => ?_⟩
      show ((@unpackExponent Format.binary64 bits).toNat : Int) - (1023 + 52) ≤ 971
      omega

/-! ## Rounding -/

theorem mantissa_shiftRight (em : ExtendedMantissa) (k : Nat) :
    (em >>> k).mantissa = em.mantissa / 2 ^ k := by
  induction k with
  | zero => exact (Nat.div_one _).symm
  | succ k ih =>
    show (em >>> k).mantissa / 2 = _
    rw [ih, Nat.div_div_eq_div_mul, Nat.pow_succ]

theorem roundedMantissa_le (em : ExtendedMantissa) : em.roundedMantissa ≤ em.mantissa + 1 := by
  rcases em with ⟨m, _ | _, _ | _⟩ <;>
    simp only [ExtendedMantissa.roundedMantissa, ExtendedMantissa.accuracy,
      Accuracy.roundToNearestEven] <;> omega

theorem mantissa_ofMantissaAndAccuracy (m : Nat) (accuracy : Accuracy) :
    (ExtendedMantissa.ofMantissaAndAccuracy m accuracy).mantissa = m := by
  rcases accuracy with _ | _ | _ | _ <;> rfl

theorem log2_le_of_le_two_pow {m n : Nat} (h : m ≤ 2 ^ n) : m.log2 ≤ n := by
  by_cases hm : m = 0
  · simp [hm]
  · have hlt := Nat.lt_of_le_of_lt h (Nat.pow_lt_pow_succ (a := 2) (by decide))
    exact Nat.le_of_lt_succ ((Nat.log2_lt hm).2 hlt)

/-- A rounded number is bounded if the number was in range before, with one bit to spare. -/
theorem bounded_roundWithAccuracy {bound : Int} {s : Sign} {m : Nat} {e : Int}
    {accuracy : Accuracy} (least : leastExponent ≤ bound) (exponent : e ≤ bound)
    (total : totalExponent m e ≤ bound + 52) :
    Bounded bound (roundWithAccuracy Format.binary64 s m e accuracy) := by
  simp only [totalExponent] at total
  -- the first shift drops the bits that are too many
  let k := (Format.binary64.targetExponent (totalExponent m e) - e).toNat
  let em := ExtendedMantissa.ofMantissaAndAccuracy m accuracy >>> k
  have hk : (k : Int) = max (max (m.log2 + 1 + e - 53) (-1074) - e) 0 := Int.toNat_eq_max _
  have hshifted : m / 2 ^ k < 2 ^ (m.log2 + 1 - k) := by
    refine Nat.div_lt_of_lt_mul (Nat.lt_of_lt_of_le Nat.lt_log2_self ?_)
    rw [← Nat.pow_add]
    exact Nat.pow_le_pow_right (by decide) (by omega)
  -- rounding may add one bit, and a second shift drops it again
  have hlog : em.roundedMantissa.log2 ≤ m.log2 + 1 - k := by
    have hle := roundedMantissa_le em
    rw [mantissa_shiftRight, mantissa_ofMantissaAndAccuracy] at hle
    exact log2_le_of_le_two_pow (Nat.le_trans hle hshifted)
  let again := (Format.binary64.targetExponent (totalExponent em.roundedMantissa (e + k)) -
    (e + k)).toNat
  have hagain : (again : Int) =
      max (max (em.roundedMantissa.log2 + 1 + (e + k) - 53) (-1074) - (e + k)) 0 :=
    Int.toNat_eq_max _
  simp only [roundWithAccuracy]
  split
  · trivial
  · show e + k + again ≤ bound
    simp only [leastExponent] at least
    omega

/-! ## Whole numbers -/

theorem log2_shiftLeft_lt {n k : Nat} (h : n < 2 ^ 64) : (n <<< k).log2 < 64 + k := by
  by_cases hzero : n <<< k = 0
  · rw [hzero, Nat.log2_zero]
    omega
  · rw [Nat.log2_lt hzero, Nat.shiftLeft_eq, Nat.pow_add]
    exact Nat.mul_lt_mul_of_pos_right h (Nat.two_pow_pos k)

/-- A whole number of 64 bits is below 2 ^ 65 when it is rounded. -/
theorem bounded_ofNat {n : Nat} (h : n < 2 ^ 64) :
    Bounded 12 (UnpackedFloat.ofNat Format.binary64 n) := by
  rw [UnpackedFloat.ofNat, UnpackedFloat.ofInt, UnpackedFloat.normalize]
  split
  · next hnegative =>
    rw [Int.compare_eq_lt] at hnegative
    omega
  · trivial
  · let k := (0 - Format.binary64.targetExponent (totalExponent n 0)).toNat
    have hlog := log2_shiftLeft_lt (k := k) h
    refine bounded_roundWithAccuracy (by decide) ?_ ?_
    · show (0 : Int) - k ≤ 12
      omega
    · show ((n <<< k).log2 + 1 + (0 - k) : Int) ≤ 12 + 52
      omega

/-- The bounds of factors with 53 bits add up, with up to 55 bits more. -/
theorem Bounded.mul {bound bound' : Int} : {a b : UnpackedFloat} → Bounded bound a → IsNarrow a →
    Bounded bound' b → IsNarrow b → bound + bound' + 55 ≤ greatestExponent →
    Bounded greatestExponent (.mul Format.binary64 a b)
  | .zero _, .zero _, _, _, _, _, _ | .zero _, .finite .., _, _, _, _, _
  | .finite .., .zero _, _, _, _, _, _ => trivial
  | .finite _ m e hm, .finite _ m' e' hm', ha, narrow, hb, narrow', sum => by
    have hlog : (m * m').log2 ≤ 106 := by
      have hproduct : m * m' ≤ 2 ^ 53 * 2 ^ 53 :=
        Nat.mul_le_mul (Nat.le_of_lt narrow) (Nat.le_of_lt narrow')
      exact log2_le_of_le_two_pow hproduct
    have he : e ≤ bound := ha
    have he' : e' ≤ bound' := hb
    simp only [greatestExponent] at sum
    refine bounded_roundWithAccuracy (by decide) ?_ ?_
    · show e + e' ≤ 971
      omega
    · show ((m * m').log2 + 1 + (e + e') : Int) ≤ 971 + 52
      omega

/-- A whole number of 64 bits is finite. -/
theorem isFinite_ofNat {n : Nat} (h : n < 2 ^ 64) : (Float.ofNat n).isFinite = true := by
  show (Float.ofScientific n false 0).isFinite = true
  rw [Float.ofScientific]
  split
  · -- small numbers are multiplied by one
    let number := n.toUInt64.toFloat
    have hnumber : Bounded 12 number.toModel.unpack :=
      (bounded_ofNat n.toUInt64.toNat_lt).unpack_pack (by decide) (by decide)
    have hone : Bounded (-52) (Float.ofBits 0x3FF0000000000000).toModel.unpack :=
      Int.le_refl _
    exact (hnumber.mul (unpack_spec number).1 hone (unpack_spec _).1 (by decide)).isFinite_pack
  · -- others are shifted by the bits of the mantissa before they are rounded
    show (Float.Model.pack (UnpackedFloat.ofScientific Format.binary64 n 0)).isFinite = true
    refine Bounded.isFinite_pack ?_
    rw [UnpackedFloat.ofScientific]
    split
    · trivial
    · have hlog := log2_shiftLeft_lt (k := 53) h
      have hzero : ¬ (0 : Int) < -(2 ^ Format.binary64.exponentBits + n.log2 : Int) := by
        have hpower : (0 : Int) ≤ 2 ^ Format.binary64.exponentBits := by decide
        omega
      rw [if_neg (by decide), if_neg hzero, if_pos (Int.le_refl 0), UnpackedFloat.mul,
        Int.toNat_zero, Nat.pow_zero, Nat.mul_one, Int.add_zero]
      have hbits : Format.binary64.mantissaBits = 53 := rfl
      rw [hbits]
      have htotal : totalExponent (n <<< 53) (-(53 : Nat)) ≤ greatestExponent + 52 := by
        simp only [totalExponent, greatestExponent]
        omega
      have hexponent : (-(53 : Nat) : Int) ≤ greatestExponent := by decide
      have hleast : leastExponent ≤ greatestExponent := by decide
      generalize n <<< 53 = m at htotal ⊢
      exact bounded_roundWithAccuracy hleast hexponent htotal

/-! ## Scaling by powers of ten -/

theorem Bounded.exists_sign_mul {bound bound' : Int} : {a b : UnpackedFloat} → Bounded bound a →
    Bounded bound' b → ∃ s, sign? (.mul Format.binary64 a b) = some s
  | .zero _, .zero _, _, _ | .zero _, .finite .., _, _ | .finite .., .zero _, _, _ => ⟨_, rfl⟩
  | .finite .., .finite .., _, _ => ⟨_, sign?_roundWithAccuracy _ _ _ _⟩

/-- A product of finite numbers is a number. -/
theorem isNaN_mul {x y : Float} (hx : x.isFinite = true) (hy : y.isFinite = true) :
    (x * y).isNaN = false := by
  obtain ⟨s, hs⟩ := ((unpack_spec x).2 hx).exists_sign_mul ((unpack_spec y).2 hy)
  exact isNaN_eq_false_iff.2 ⟨s, (sign?_pack _).trans hs⟩

/-- A number is finite if it is one and not infinite. -/
theorem isFinite_of_not_isInf {x : Float} (number : x.isNaN = false) (bounded : x.isInf = false) :
    x.isFinite = true := by
  obtain ⟨s, hs⟩ := isNaN_eq_false_iff.1 number
  change x.toModel.unpack.isInf = false at bounded
  show x.toModel.unpack.isFinite = true
  generalize x.toModel.unpack = a at hs bounded
  cases a with
  | notANumber => cases hs
  | infinity => cases bounded
  | zero | finite => rfl

theorem isFinite_neg {x : Float} (h : x.isFinite = true) : (-x).isFinite = true :=
  ((unpack_spec x).2 h).neg.isFinite_pack

/-- A finite number of eight or more. -/
def isGreat : UnpackedFloat → Bool
  | .finite _ m e _ => 4 ≤ totalExponent m e
  | .zero _ | .infinity _ | .notANumber => false

theorem isFinite_of_isGreat : {a : UnpackedFloat} → isGreat a = true → a.isFinite = true
  | .finite .., _ => rfl

/-- The bits of a quotient and of the divisor make up at most those of the dividend. -/
theorem log2_div_add_log2_lt {m n k : Nat} (hm : m < 2 ^ 53) (hq : (m <<< k) / n ≠ 0) :
    ((m <<< k) / n).log2 + n.log2 < 53 + k := by
  have hn : n ≠ 0 := by
    rintro rfl
    simp at hq
  refine (Nat.pow_lt_pow_iff_right (a := 2) (by decide)).1 ?_
  calc 2 ^ (((m <<< k) / n).log2 + n.log2)
      = 2 ^ ((m <<< k) / n).log2 * 2 ^ n.log2 := Nat.pow_add ..
    _ ≤ (m <<< k) / n * n := Nat.mul_le_mul (Nat.log2_self_le hq) (Nat.log2_self_le hn)
    _ ≤ m <<< k := Nat.div_mul_le_self ..
    _ = m * 2 ^ k := Nat.shiftLeft_eq ..
    _ < 2 ^ 53 * 2 ^ k := Nat.mul_lt_mul_of_pos_right hm (Nat.two_pow_pos k)
    _ = 2 ^ (53 + k) := (Nat.pow_add ..).symm

theorem Bounded.div : {a b : UnpackedFloat} → Bounded greatestExponent a → IsNarrow a →
    isGreat b = true → Bounded greatestExponent (.div Format.binary64 a b)
  | .zero _, .finite .., _, _, _ => trivial
  | .finite _ m e hm, .finite _ n f hn, ha, narrow, great => by
    have hexponent : e ≤ 971 := ha
    have hgreat : (4 : Int) ≤ n.log2 + 1 + f := of_decide_eq_true great
    have hlog : m.log2 ≤ 52 := Nat.le_of_lt_succ ((Nat.log2_lt (Nat.ne_of_gt hm)).2 narrow)
    let target :=
      min (e - f) (Format.binary64.targetExponent (totalExponent m e - totalExponent n f))
    let k := (e - f - target).toNat
    have htarget : target = min (e - f)
        (max (m.log2 + 1 + e - (n.log2 + 1 + f) - 53) (-1074)) := rfl
    have hk : (k : Int) = max (e - f - target) 0 := Int.toNat_eq_max _
    refine bounded_roundWithAccuracy (by decide) ?_ ?_
    · show target ≤ 971
      omega
    · show (((m <<< k) / n).log2 + 1 + target : Int) ≤ 971 + 52
      by_cases hq : (m <<< k) / n = 0
      · rw [hq, Nat.log2_zero]
        omega
      · have hquotient := log2_div_add_log2_lt narrow hq
        omega

/-- A finite number divided by eight or more is finite. -/
theorem isFinite_div {x y : Float} (hx : x.isFinite = true)
    (great : isGreat y.toModel.unpack = true) : (x / y).isFinite = true :=
  (((unpack_spec x).2 hx).div (unpack_spec x).1 great).isFinite_pack

end QueryCanvas.Binary64
