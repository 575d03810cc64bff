/-
  QueryCanvas.Json.Number

  The value of a number that is written in digits.

  The leading digits, as many as fit into 64 bits, make a whole number; the
  further ones only move the point. That number is rounded to binary64 and then
  scaled by one power of ten, which is rounded too.
-/

import QueryCanvas.Decimal
import QueryCanvas.Json.Basic
import QueryCanvas.Text.Scan

namespace QueryCanvas.Json

open QueryCanvas.Text

/-- Digits read so far: a whole number below 2 ^ 64, how many digits went into it, and whether one
    did not fit. -/
structure Significand where
  value : Nat
  taken : Nat
  full : Bool
deriving DecidableEq, Repr

/-- Takes a digit if the number stays below 2 ^ 64 and no digit was left out before. -/
def Significand.push (s : Significand) (digit : Char) : Significand :=
  let value := s.value * 10 + (digit.toNat - 48)
  if s.full || 0x10000000000000000 ≤ value then { s with full := true }
  else ⟨value, s.taken + 1, false⟩

/-- Takes digits one after the other. -/
def Significand.pushAll (s : Significand) (digits : List Char) : Significand :=
  digits.foldl Significand.push s

def powerOfTen (n : Nat) : Float := Float.ofScientific 1 false n

/-- Multiplies by 10 ^ exponent. Far below one, the number is first brought down in great steps;
    the steps end because it becomes zero. -/
def scale : Nat → Float → Int → Number
  | 0, x, _ => .real x
  | steps + 1, x, exponent =>
    if exponent.natAbs ≤ 308 then
      if 0 ≤ exponent then
        let scaled := x * powerOfTen exponent.natAbs
        if scaled.isInf then .beyond else .real scaled
      else .real (x / powerOfTen exponent.natAbs)
    else if x == 0.0 then .real x
    else if 0 ≤ exponent then .beyond
    else scale steps (x / powerOfTen 308) (exponent + 308)

def Number.signed (negative : Bool) : Number → Number
  | .real x => .real (if negative then -x else x)
  | n => n

/-- The value of `whole.fraction · 10 ^ exponent`; a number without fraction and exponent is a whole
    number if it fits into 64 bits. -/
def Number.ofDigits (negative : Bool) (whole : List Char) (fraction : Option (List Char))
    (exponent : Option Int) : Number :=
  let front := (⟨0, 0, false⟩ : Significand).pushAll whole
  if fraction.isNone && exponent.isNone && !front.full then
    if !negative then .natural front.value
    -- a minus sign before zero is kept, and below the range of 64 bits there are only reals
    else if front.value = 0 || 0x8000000000000000 < front.value then
      .real (-Float.ofNat front.value)
    else .negative front.value
  else
    let all := ({ front with full := false } : Significand).pushAll (fraction.getD [])
    -- whole digits that were left out move the point to the right, digits of the fraction that
    -- were taken move it to the left
    let shift : Int := (whole.length : Int) - front.taken - ((all.taken : Int) - front.taken)
    (scale 4 (Float.ofNat all.value) (shift + exponent.getD 0)).signed negative

/-! ## Reading -/

/-- Digits that have to be there. -/
def digits : Scan (List Char) := Scan.run1 Char.isDigit

/-- A number: sign, digits without a leading zero, fraction, exponent. -/
def numberScan : Scan Number := do
  let negative ← Scan.succeeds (Scan.text "-")
  let whole ← digits
  if 1 < whole.length && whole.head? = some '0' then failure
  let fraction ←
    if ← Scan.succeeds (Scan.text ".") then some <$> digits else pure none
  let exponent ←
    if ← Scan.succeeds (Scan.char fun c => c = 'e' || c = 'E') then do
      let sign ← Scan.optional (Scan.char fun c => c = '+' || c = '-')
      let value : Int := digitsValue 10 (← digits)
      pure (some (if sign = some '-' then -value else value))
    else pure none
  pure (.ofDigits negative whole fraction exponent)

end QueryCanvas.Json
