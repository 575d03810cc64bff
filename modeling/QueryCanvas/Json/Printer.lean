/-
  QueryCanvas.Json.Printer

  Writing JSON values without blanks.
-/

import QueryCanvas.Decimal
import QueryCanvas.Json.Basic
import QueryCanvas.Text.Cut

namespace QueryCanvas

/-! ## Numbers -/

/-- The digits with a point behind the first and the power of ten that it stands for. -/
def Decimal.Scientific.exponential (d : Decimal.Scientific) : String :=
  let digits := (Nat.repr d.digits).toList
  let fraction := digits.drop 1
  let power : Int := d.exponent + fraction.length
  String.ofList (digits.take 1 ++ if fraction.isEmpty then [] else '.' :: fraction)
    ++ "e" ++ toString power

namespace Json

/-- How numbers around one are written: always with a fraction. -/
def positionalStyle : Decimal.Style := ⟨"null", "null", ".0"⟩

/-- True for decimals that are written without an exponent: at most sixteen digits before the
    point, at most four zeros between the point and the first digit. -/
def isWrittenOut (d : Decimal.Scientific) : Bool :=
  let point : Int := d.exponent + (Nat.repr d.digits).length
  point ≤ 16 && -5 < point

/-- A number with the fewest digits that read back. -/
def writeFloat (x : Float) : String :=
  match Decimal.shortest? (x.toBits.toNat % Binary64.signBit) with
  | some d =>
    if !x.isFinite || isWrittenOut d then positionalStyle.write x
    else (if Binary64.isNegative x then "-" else "") ++ d.exponential
  | none => positionalStyle.write x

/-- The text of a number. What is beyond the range has none. -/
def Number.write : Number → String
  | .natural n => Nat.repr n
  | .negative n => "-" ++ Nat.repr n
  | .real x => writeFloat x
  | .beyond => "null"

/-! ## Strings -/

/-- A character inside a string. Control characters are escaped, all others but quote and backslash
    stand for themselves. -/
def escapeChar (c : Char) : List Char :=
  match c with
  | '"' => ['\\', '"']
  | '\\' => ['\\', '\\']
  | '\n' => ['\\', 'n']
  | '\t' => ['\\', 't']
  | '\x0d' => ['\\', 'r']
  | '\x08' => ['\\', 'b']
  | '\x0c' => ['\\', 'f']
  | c =>
    if c.toNat < 0x20 then
      ['\\', 'u', '0', '0', Nat.digitChar (c.toNat / 16), Nat.digitChar (c.toNat % 16)]
    else [c]

/-- A text in quotes. -/
def quote (s : String) : String := "\"" ++ String.ofList (s.toList.flatMap escapeChar) ++ "\""

/-! ## Values -/

mutual

/-- The text of a value. Parts that cannot be used have no text and are written as `null`. -/
def write : Json → String
  | null | unpaired | keyless _ | tooDeep | broken => "null"
  | bool b => if b then "true" else "false"
  | number n => n.write
  | text s => quote s
  | array items => "[" ++ Text.joinWith "," (writeItems items) ++ "]"
  | object members => "\x7b" ++ Text.joinWith "," (writeMembers members) ++ "\x7d"

def writeItems : List Json → List String
  | [] => []
  | j :: rest => j.write :: writeItems rest

def writeMembers : List (String × Json) → List String
  | [] => []
  | (key, j) :: rest => (quote key ++ ":" ++ j.write) :: writeMembers rest

end

end Json

end QueryCanvas
