/-
  QueryCanvas.Scalar.Binary64

  Binary64 numbers as canvas coordinates.
-/

import QueryCanvas.Scalar

namespace QueryCanvas.Binary64

/-- The smaller of two numbers, the other one if one is not a number. Of two
    zeros, the first. -/
def smaller (x y : Float) : Float := if x.isNaN then y else if y < x then y else x

/-- The greater of two numbers, the other one if one is not a number. Of two
    zeros, the second. -/
def greater (x y : Float) : Float := if y < x || y.isNaN then x else y

/-- The length of the hypotenuse, given the longer and the shorter leg, whose squares have to be in
    range: a square root with one step of correction. The excess is how far the square of the root
    lies above the sum of the squares. It is computed from small differences, so that it tells what
    the rounding of the sum and of the root has changed. -/
def correctedHypot (longer shorter : Float) : Float :=
  let root := (longer * longer + shorter * shorter).sqrt
  let excess : Float :=
    if root ≤ 2.0 * shorter then
      let d := root - shorter
      longer * (2.0 * d - longer) + (d - 2.0 * (longer - shorter)) * d
    else
      let d := root - longer
      2.0 * d * (longer - 2.0 * shorter) + ((4.0 * d - shorter) * shorter + d * d)
  root - excess / (2.0 * root)

/-- The corrected length, computed from legs that are scaled by a power of two. -/
def scaledHypot (exponent : Int) (longer shorter : Float) : Float :=
  (correctedHypot (longer.scaleB exponent) (shorter.scaleB exponent)).scaleB (-exponent)

/-- The length of the hypotenuse. It is infinite if a leg is. A leg that is too short to count
    beside the other one is added to it, and legs whose squares would leave the range are
    scaled. -/
def hypot (x y : Float) : Float :=
  let a := x.abs
  let b := y.abs
  let (longer, shorter) := if a < b then (b, a) else (a, b)
  if x.isInf || y.isInf then 1.0 / 0.0
  else if x.isNaN || y.isNaN || shorter ≤ longer.scaleB (-54) then longer + shorter
  else if longer > (1.0 : Float).scaleB 511 then scaledHypot (-600) longer shorter
  else if shorter < (1.0 : Float).scaleB (-459) then scaledHypot 600 longer shorter
  else correctedHypot longer shorter

def signBit : Nat := 0x8000000000000000

/-- Position in the total order of binary64: from the negative infinities up,
    minus zero before zero. -/
def rank (x : Float) : Nat :=
  let bits := x.toBits.toNat
  if bits < signBit then signBit + bits else 2 * signBit - 1 - bits

/-- Integral values of at most 53 bits as a whole number. -/
def toInt? (x : Float) : Option Int :=
  if x.isFinite && x.floor == x && x.abs ≤ 9007199254740992.0 then
    some (if x < 0.0 then -(x.abs.toUInt64.toNat : Int) else (x.toUInt64.toNat : Int))
  else none

/-- True for numbers whose sign bit is set. -/
def isNegative (x : Float) : Bool := signBit ≤ x.toBits.toNat

end QueryCanvas.Binary64

namespace QueryCanvas

instance : Scalar Float where
  decidableLT := inferInstance
  decidableLE := inferInstance
  zero := 0.0
  one := 1.0
  two := 2.0
  four := 4.0
  epsilon := 1e-9
  tolerance := 1e-6
  abs := Float.abs
  sqrt := Float.sqrt
  hypot := Binary64.hypot
  smaller := Binary64.smaller
  greater := Binary64.greater
  precedes x y := Binary64.rank x < Binary64.rank y

end QueryCanvas
