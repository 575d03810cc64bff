/-
  QueryCanvas.Json.Basic

  JSON values.

  A value that was read from a text may have a place where the text stops being
  JSON, and parts that can be passed over but not used. They are part of the
  value, because whether they matter depends on who looks: what nobody asks for
  need only have the right form.
-/

namespace QueryCanvas

namespace Json

inductive Number
  | natural (n : Nat)
  /-- Minus `n`. -/
  | negative (n : Nat)
  | real (x : Float)
  /-- Written in digits, but beyond every binary64 number. -/
  | beyond
deriving DecidableEq, Repr

end Json

/-- A JSON value. Members of an object keep their order, also where a key is repeated. -/
inductive Json
  | null
  | bool (b : Bool)
  | number (n : Json.Number)
  | text (s : String)
  | array (items : List Json)
  | object (members : List (String × Json))
  /-- A string with half of a surrogate pair: it has the form of a string but is no text. -/
  | unpaired
  /-- The value of a member without a key: the key is missing or has half of a surrogate pair. -/
  | keyless (value : Json)
  /-- An array or object inside so many others that it is only passed over. -/
  | tooDeep
  /-- Here the text stops being JSON. -/
  | broken

namespace Json

/-! ## Building values -/

/-- A whole number. -/
def natural (n : Nat) : Json := .number (.natural n)

/-- A number, `null` in place of infinities and of what is not a number. -/
def ofFloat (x : Float) : Json := if x.isFinite then .number (.real x) else .null

/-- A text, or `null`. -/
def ofText? : Option String → Json
  | some s => .text s
  | none => .null

/-! ## What a value lacks -/

/-- Why a value was not accepted. -/
inductive Flaw
  /-- It is not JSON. -/
  | malformed
  /-- It is JSON, but not of the expected form. -/
  | mismatch
deriving DecidableEq, Repr

mutual

/-- True if the text stops being JSON somewhere in the value. -/
def isBroken : Json → Bool
  | broken => true
  | array items => anyBroken items
  | object members => anyMemberBroken members
  | keyless value => value.isBroken
  | null | bool _ | number _ | text _ | unpaired | tooDeep => false

def anyBroken : List Json → Bool
  | [] => false
  | j :: rest => j.isBroken || anyBroken rest

def anyMemberBroken : List (String × Json) → Bool
  | [] => false
  | (_, j) :: rest => j.isBroken || anyMemberBroken rest

end

mutual

/-- True if every part of the value can be used. -/
def isUsable : Json → Bool
  | broken | unpaired | keyless _ | tooDeep => false
  | number n => n ≠ .beyond
  | array items => allUsable items
  | object members => allMembersUsable members
  | null | bool _ | text _ => true

def allUsable : List Json → Bool
  | [] => true
  | j :: rest => j.isUsable && allUsable rest

def allMembersUsable : List (String × Json) → Bool
  | [] => true
  | (_, j) :: rest => j.isUsable && allMembersUsable rest

end

end Json

end QueryCanvas
