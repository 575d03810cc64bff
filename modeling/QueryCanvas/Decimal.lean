/-
  QueryCanvas.Decimal

  Decimals and binary64 numbers: the number nearest to a decimal, and the
  shortest decimal that reads back as a given number, with its positional text.

  A finite number is m · 2^q. The numbers that round to it form an interval
  around it, with its ends exactly if m is even. The coarsest decimal grid with
  a point in the interval gives the fewest digits; of two such points the nearer
  one is taken, at equal distance the even one.
-/

import QueryCanvas.Scalar.Binary64

namespace QueryCanvas.Decimal

open Binary64 (signBit isNegative)

/-! ## The nearest number -/

/-- The number nearest to `digits · 10 ^ exponent`. An exponent far out of range gives infinity or
    zero without computing the power. -/
def toBinary64 (digits : Nat) (exponent : Int) : Float :=
  if digits = 0 then 0.0
  else if 400 < exponent then 1.0 / 0.0
  else if exponent + (Nat.log2 digits : Int) < -1200 then 0.0
  else Float.ofScientific digits (exponent < 0) exponent.natAbs

/-! ## The shortest decimal -/

/-- A positive number `digits · 10 ^ exponent`. -/
structure Scientific where
  digits : Nat
  exponent : Int
deriving DecidableEq, Repr

/-- The interval of the real numbers that round to a number, over a common denominator: the number
    itself, the ends, and whether the ends belong to it. -/
structure Rounding where
  value : Nat
  low : Nat
  high : Nat
  denominator : Nat
  closed : Bool
deriving Repr

/-- The leading bit of m, which is not stored. -/
def hiddenBit : Nat := 0x10000000000000

/-- The parts m and q of a positive finite number with the given bits. -/
def mantissaAndExponent (bits : Nat) : Nat × Int :=
  let fraction : Nat := bits % hiddenBit
  let biased : Nat := bits / hiddenBit % 0x800
  if biased = 0 then (fraction, -1074) else (hiddenBit + fraction, (biased : Int) - 1075)

/-- The rounding interval of m · 2^q. Below a power of two the neighbour is only half as far. -/
def Rounding.of (m : Nat) (q : Int) : Rounding :=
  let below := if m = hiddenBit ∧ -1074 < q then 1 else 2
  let up := if 2 ≤ q then Nat.pow 2 (q - 2).toNat else 1
  let denominator := if 2 ≤ q then 1 else Nat.pow 2 (2 - q).toNat
  ⟨4 * m * up, (4 * m - below) * up, (4 * m + 2) * up, denominator, m % 2 = 0⟩

/-- The multiple of 10 ^ e in the interval that is nearest to the number, if there is one. -/
def Rounding.onGrid? (r : Rounding) (e : Int) : Option Nat :=
  let up := if e < 0 then Nat.pow 10 (-e).toNat else 1
  let unit := r.denominator * (if e < 0 then 1 else Nat.pow 10 e.toNat)
  let value := r.value * up
  let inside (k : Nat) : Bool :=
    let x := k * unit
    if r.closed then r.low * up ≤ x && x ≤ r.high * up
    else r.low * up < x && x < r.high * up
  -- the number lies between the grid points k and k + 1; no other grid point is as near
  let k := value / unit
  let rest := value % unit
  let downFirst := 2 * rest < unit || (2 * rest = unit && k % 2 = 0)
  let candidates := if downFirst then [k, k + 1] else [k + 1, k]
  candidates.find? fun k => 0 < k && inside k

/-- Tries the grids from 10 ^ e downwards. -/
def Rounding.search (r : Rounding) : Nat → Int → Option Scientific
  | 0, _ => none
  | fuel + 1, e =>
    match r.onGrid? e with
    | some k => some ⟨k, e⟩
    | none => r.search fuel (e - 1)

/-- The shortest decimal of the positive finite number with the given bits. No number has a point
    on a grid that is coarser than its first digit, and each one has a point among the 17 grids
    below that. -/
def shortest? (bits : Nat) : Option Scientific :=
  let (m, q) := mantissaAndExponent bits
  let start := ((Nat.log2 m : Int) + q) * 30103 / 100000 + 2
  (Rounding.of m q).search 24 start

/-! ## Positional text -/

/-- The digits of a decimal around its point, without an exponent. -/
def Scientific.positional (d : Scientific) : String :=
  let text := (Nat.repr d.digits).toList
  if 0 ≤ d.exponent then String.ofList (text ++ List.replicate d.exponent.toNat '0')
  else
    let places := (-d.exponent).toNat
    let padded := List.replicate (places + 1 - text.length) '0' ++ text
    let whole := padded.take (padded.length - places)
    let fraction := padded.drop (padded.length - places)
    String.ofList (whole ++ '.' :: fraction)

/-- How a number is written. -/
structure Style where
  nan : String
  infinity : String
  /-- What stands behind a number without a fraction. -/
  wholeMark : String
deriving DecidableEq, Repr

/-- Writes a number with the fewest digits that read back, without an exponent. -/
def Style.write (style : Style) (x : Float) : String :=
  let magnitude := x.toBits.toNat % signBit
  let sign := if isNegative x then "-" else ""
  if x.isNaN then style.nan
  else if x.isInf then sign ++ style.infinity
  else if magnitude = 0 then sign ++ "0" ++ style.wholeMark
  else
    match shortest? magnitude with
    | none => style.nan
    | some d => sign ++ d.positional ++ if 0 ≤ d.exponent then style.wholeMark else ""

end QueryCanvas.Decimal
