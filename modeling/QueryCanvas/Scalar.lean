/-
  QueryCanvas.Scalar

  The numbers in which the canvas is measured. The geometry uses nothing but
  the operations listed here, so that the same formulas can be run on binary64
  numbers and read over the real numbers.
-/

namespace QueryCanvas

/-- Numbers with the operations that the geometry uses. A comparison with
    something that is not a number is false. -/
class Scalar (α : Type) extends Add α, Sub α, Mul α, Div α, Neg α, LT α, LE α where
  decidableLT : DecidableLT α
  decidableLE : DecidableLE α
  zero : α
  one : α
  two : α
  four : α
  /-- One thousand-millionth: lengths up to it count as zero. -/
  epsilon : α
  /-- One millionth: how far off an outline a point still counts as lying on it. -/
  tolerance : α
  abs : α → α
  sqrt : α → α
  /-- The length of the hypotenuse over two legs. -/
  hypot : α → α → α
  /-- The smaller of two numbers; an argument that is not a number is passed over. -/
  smaller : α → α → α
  /-- The greater of two numbers; an argument that is not a number is passed over. -/
  greater : α → α → α
  /-- A strict total order that refines `<`. -/
  precedes : α → α → Bool

attribute [reducible, instance] Scalar.decidableLT Scalar.decidableLE

namespace Scalar

variable {α : Type} [Scalar α]

/-- The number between `lo` and `hi` that is nearest to `x`. -/
def clamp (x lo hi : α) : α :=
  let raised := if x < lo then lo else x
  if hi < raised then hi else raised

/-- The first of the numbers that no other precedes. -/
def earliest? : List α → Option α
  | [] => none
  | x :: xs => some (xs.foldl (fun best y => if precedes y best then y else best) x)

/-- Half of a number. -/
def half (x : α) : α := x / two

end Scalar

end QueryCanvas
