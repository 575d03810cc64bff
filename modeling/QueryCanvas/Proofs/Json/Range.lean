/-
  QueryCanvas.Proofs.Json.Range

  The numbers of a text are in range.

  Whatever a text looks like, the whole numbers that are read from it have at
  most 64 bits, and the others are finite (`inRange_read`). A number beyond the
  range is read as such and not as infinity.
-/

import QueryCanvas.Proofs.Json.Reading
import QueryCanvas.Proofs.Scalar.Range

namespace QueryCanvas.Json

open QueryCanvas.Text Scan
open Binary64 (isGreat isFinite_ofNat isFinite_neg isFinite_div isFinite_of_isGreat)

/-! ## Numbers -/

def Number.InRange : Number → Prop
  | natural n | negative n => n < 2 ^ 64
  | real x => x.isFinite = true
  | beyond => True

theorem isGreat_powerOfTen_succ :
    ∀ n < 308, isGreat (powerOfTen (n + 1)).toModel.unpack = true := by
  decide +kernel

theorem isGreat_powerOfTen {n : Nat} (pos : 0 < n) (h : n ≤ 308) :
    isGreat (powerOfTen n).toModel.unpack = true := by
  obtain ⟨k, rfl⟩ := Nat.exists_eq_succ_of_ne_zero (Nat.ne_of_gt pos)
  exact isGreat_powerOfTen_succ k h

theorem isFinite_powerOfTen {n : Nat} (h : n ≤ 308) : (powerOfTen n).isFinite = true := by
  rcases Nat.eq_zero_or_pos n with rfl | pos
  · rfl
  · exact isFinite_of_isGreat (isGreat_powerOfTen pos h)

theorem inRange_scale (steps : Nat) {x : Float} (h : x.isFinite = true) (exponent : Int) :
    (scale steps x exponent).InRange := by
  induction steps generalizing x exponent with
  | zero => exact h
  | succ steps ih =>
    rw [scale]
    split
    · next hsmall =>
      split
      · simp only
        split
        · trivial
        · next hbounded =>
          exact Binary64.isFinite_of_not_isInf (Binary64.isNaN_mul h (isFinite_powerOfTen hsmall))
            (Bool.eq_false_iff.2 hbounded)
      · next hnegative => exact isFinite_div h (isGreat_powerOfTen (by omega) hsmall)
    · split
      · exact h
      · split
        · trivial
        · exact ih (isFinite_div h (isGreat_powerOfTen (by decide) (Nat.le_refl _))) _

theorem Number.InRange.signed {n : Number} (h : n.InRange) (negative : Bool) :
    (n.signed negative).InRange := by
  cases n with
  | real x => cases negative with
    | false => exact h
    | true => exact isFinite_neg h
  | natural | negative | beyond => exact h

theorem Significand.push_lt {s : Significand} (h : s.value < 2 ^ 64) (digit : Char) :
    (s.push digit).value < 2 ^ 64 := by
  rw [push]
  split
  · exact h
  · next hfits =>
    simp only [Bool.or_eq_true, decide_eq_true_eq, not_or, Nat.not_le] at hfits
    exact hfits.2

theorem Significand.pushAll_lt {s : Significand} (h : s.value < 2 ^ 64) (digits : List Char) :
    (s.pushAll digits).value < 2 ^ 64 := by
  induction digits generalizing s with
  | nil => exact h
  | cons c cs ih => exact ih (push_lt h c)

theorem Number.inRange_ofDigits (negative : Bool) (whole : List Char)
    (fraction : Option (List Char)) (exponent : Option Int) :
    (ofDigits negative whole fraction exponent).InRange := by
  have hfront : ((⟨0, 0, false⟩ : Significand).pushAll whole).value < 2 ^ 64 :=
    Significand.pushAll_lt (by decide) whole
  simp only [ofDigits]
  generalize (⟨0, 0, false⟩ : Significand).pushAll whole = front at hfront
  -- without fraction and exponent, a whole number; a negative zero is kept as a real number
  split
  · split
    · exact hfront
    · split
      · exact isFinite_neg (isFinite_ofNat hfront)
      · exact hfront
  · have hfull : ({ front with full := false } : Significand).value < 2 ^ 64 := hfront
    have hall := Significand.pushAll_lt hfull (fraction.getD [])
    exact (inRange_scale 4 (isFinite_ofNat hall) _).signed negative

theorem yields_numberScan : Yields numberScan Number.InRange := by
  refine yields_of_last fun negative => yields_of_last fun whole => ?_
  split
  · exact fun _ _ _ hread => by cases hread
  · refine yields_of_last fun hasFraction => ?_
    -- with and without a fraction, the same follows
    split
    all_goals
      refine yields_of_last fun fraction => yields_of_last fun hasExponent => ?_
      split
    case isTrue.isTrue | isFalse.isTrue =>
      exact yields_of_last fun sign => yields_of_last fun digits => yields_of_last fun exponent =>
        yields_pure (Number.inRange_ofDigits ..)
    all_goals
      exact yields_of_last fun exponent => yields_pure (Number.inRange_ofDigits ..)

/-! ## Values -/

mutual

/-- True if the numbers of a value are in range. -/
def InRange : Json → Prop
  | number n => n.InRange
  | array items => AllInRange items
  | object members => AllMembersInRange members
  | keyless value => value.InRange
  | null | bool _ | text _ | unpaired | tooDeep | broken => True

def AllInRange : List Json → Prop
  | [] => True
  | j :: rest => j.InRange ∧ AllInRange rest

def AllMembersInRange : List (String × Json) → Prop
  | [] => True
  | (_, j) :: rest => j.InRange ∧ AllMembersInRange rest

end

theorem allInRange_iff {items : List Json} : AllInRange items ↔ ∀ j ∈ items, j.InRange := by
  induction items with
  | nil => simp [AllInRange]
  | cons j rest ih => simp [AllInRange, ih]

theorem allMembersInRange_iff {members : List (String × Json)} :
    AllMembersInRange members ↔ ∀ e ∈ members, e.2.InRange := by
  induction members with
  | nil => simp [AllMembersInRange]
  | cons e rest ih => simp [AllMembersInRange, ih]

/-! ## Texts -/

/-- True if the numbers of a token are in range. -/
def Token.InRange : Token → Prop
  | scalar value => value.InRange
  | openArray | closeArray | openObject | closeObject | comma | colon | bad => True

theorem yields_stringScan : Yields stringScan Json.InRange := by
  refine yields_of_last fun _ => yields_of_last fun codes => yields_of_last fun _ => ?_
  split
  · exact yields_pure trivial
  · exact yields_pure trivial

theorem yields_scalarScan : Yields scalarScan Json.InRange :=
  yields_stringScan.orElse <|
    (yields_of_last fun _ => yields_pure trivial).orElse <|
    (yields_of_last fun _ => yields_pure trivial).orElse <|
    (yields_of_last fun _ => yields_pure trivial).orElse <|
    yields_numberScan.bind fun _ h => yields_pure h

theorem yields_token : Yields token Token.InRange := by
  refine yields_of_last fun _ => Yields.orElse (yields_of_last fun c => ?_)
    (yields_scalarScan.bind fun _ h => yields_pure h)
  split
  case h_5 =>
    refine yields_pure ?_
    split <;> trivial
  all_goals exact yields_pure trivial

theorem inRange_tokens (s : String) : ∀ t ∈ tokens s, t.InRange := by
  rw [tokens]
  split
  · next found rest hread =>
    have hfound : ∀ t ∈ found, t.InRange := yields_token.many _ _ _ hread
    split
    · exact hfound
    · intro t ht
      rw [List.mem_append, List.mem_singleton] at ht
      rcases ht with ht | rfl
      · exact hfound t ht
      · trivial
  · intro t ht
    rw [List.mem_singleton] at ht
    subst ht
    trivial

/-- True if the numbers of the parts found so far are in range. -/
def Frame.InRange : Frame → Prop
  | items found => ∀ j ∈ found, j.InRange
  | members found | member found _ => ∀ e ∈ found, e.2.InRange

theorem inRange_memberOf {key : Option String} {value : Json} (h : value.InRange) :
    (memberOf key value).2.InRange := by
  cases key <;> exact h

theorem Frame.InRange.add {frame : Frame} {value : Json} (h : frame.InRange)
    (hvalue : value.InRange) : (frame.add value).InRange := by
  cases frame with
  | items found => exact List.forall_mem_cons.2 ⟨hvalue, h⟩
  | members found | member found key =>
    exact List.forall_mem_cons.2 ⟨inRange_memberOf hvalue, h⟩

theorem Frame.InRange.endWith {frame : Frame} {part : Json} (h : frame.InRange)
    (hpart : part.InRange) : (frame.endWith part).InRange := by
  cases frame with
  | items found =>
    refine allInRange_iff.2 fun j hj => ?_
    rw [List.mem_append, List.mem_reverse, List.mem_singleton] at hj
    rcases hj with hj | rfl
    exacts [h j hj, hpart]
  | members found | member found key =>
    refine allMembersInRange_iff.2 fun e he => ?_
    rw [List.mem_append, List.mem_reverse, List.mem_singleton] at he
    rcases he with he | rfl
    exacts [h e he, inRange_memberOf hpart]

theorem inRange_endWith {stack : List Frame} (h : ∀ frame ∈ stack, frame.InRange) {part : Json}
    (hpart : part.InRange) : (stack.foldl Frame.endWith part).InRange := by
  induction stack generalizing part with
  | nil => exact hpart
  | cons frame outer ih =>
    rw [List.forall_mem_cons] at h
    exact ih h.2 (h.1.endWith hpart)

theorem inRange_nested {outer : List Frame} {value : Json} (h : value.InRange) :
    (nested outer value).InRange := by
  rw [nested]
  split
  · exact h
  · trivial

/-- A finished value ends the text or goes into the innermost frame. -/
theorem inRange_deliver {stack : List Frame} {value : Json} {rest : List Token}
    (hstack : ∀ frame ∈ stack, frame.InRange) (hvalue : value.InRange)
    (hnext : ∀ (value : Json) (frame : Frame) (outer : List Frame),
      (∀ inner ∈ frame.add value :: outer, inner.InRange) →
        (assemble (frame.add value :: outer) .next rest).value.InRange) :
    (deliver stack value rest).value.InRange := by
  cases stack with
  | nil => exact hvalue
  | cons frame outer =>
    rw [List.forall_mem_cons] at hstack
    exact hnext value frame outer (List.forall_mem_cons.2 ⟨hstack.1.add hvalue, hstack.2⟩)

/-- The numbers of what is put together are in range if those of the parts are. -/
theorem inRange_assemble {stack : List Frame} {place : Place} {ts : List Token}
    (hstack : ∀ frame ∈ stack, frame.InRange) (hts : ∀ t ∈ ts, t.InRange) :
    (assemble stack place ts).value.InRange := by
  fun_induction assemble stack place ts with
  | case1 | case19 =>
    -- the text ends too early, or a token is out of place
    exact inRange_endWith hstack trivial
  | case2 rest _ value stack ih | case3 rest _ value stack ih =>
    -- a value without parts
    rw [List.forall_mem_cons] at hts
    exact inRange_deliver hstack hts.1 fun value frame outer h => ih value frame outer h hts.2
  | case4 rest stack _ ih | case5 rest stack _ ih | case6 rest stack _ ih | case7 rest stack _ ih =>
    -- an array or an object is opened
    rw [List.forall_mem_cons] at hts
    exact ih (List.forall_mem_cons.2 ⟨by simp [Frame.InRange], hstack⟩) hts.2
  | case8 rest _ found outer ih | case9 rest _ found outer ih =>
    -- an array is finished
    rw [List.forall_mem_cons] at hts hstack
    refine inRange_deliver hstack.2 (inRange_nested (allInRange_iff.2 fun j hj => ?_))
      fun value frame outer h => ih value frame outer h hts.2
    exact hstack.1 j (List.mem_reverse.1 hj)
  | case10 rest _ found outer ih | case11 rest _ found outer ih =>
    -- an object is finished
    rw [List.forall_mem_cons] at hts hstack
    refine inRange_deliver hstack.2 (inRange_nested (allMembersInRange_iff.2 fun e he => ?_))
      fun value frame outer h => ih value frame outer h hts.2
    exact hstack.1 e (List.mem_reverse.1 he)
  | case12 rest key found outer _ ih | case13 rest key found outer _ ih
  | case14 rest found outer _ ih | case15 rest found outer _ ih =>
    -- a key
    rw [List.forall_mem_cons] at hts hstack
    exact ih (List.forall_mem_cons.2 ⟨hstack.1, hstack.2⟩) hts.2
  | case16 rest stack _ ih | case17 rest found outer _ ih | case18 rest found outer _ ih =>
    -- a colon or a comma
    rw [List.forall_mem_cons] at hts
    exact ih hstack hts.2

/-- Whatever a text looks like, the numbers that are read from it are in range. -/
theorem inRange_read (s : String) : (Document.read s).value.InRange :=
  inRange_assemble (by simp) (inRange_tokens s)

end QueryCanvas.Json
