/-
  QueryCanvas.Json.Record

  From JSON values to typed ones.

  Parts are looked at in the order in which they stand in the value, and the
  first flaw is reported. A record may be written as an object, its fields by
  name, or as an array, its fields by place.
-/

import QueryCanvas.Dict
import QueryCanvas.Json.Basic

namespace QueryCanvas.Json

/-- A way to read a typed value off a JSON value. -/
abbrev Decoder (β : Type) := Json → Except Flaw β

namespace Decode

variable {β : Type}

/-- The flaw of a value where another form is expected. -/
def flawOf : Json → Flaw
  | .broken | .unpaired | .number .beyond => .malformed
  | _ => .mismatch

/-- Passes over a value; only its form matters. -/
def skip (j : Json) : Except Flaw Unit := if j.isBroken then .error .malformed else .ok ()

/-- Keeps a value for later; all its parts have to be usable. -/
def keep : Decoder Json := fun j => if j.isUsable then .ok j else .error .malformed

def text : Decoder String
  | .text s => .ok s
  | j => .error (flawOf j)

def bool : Decoder Bool
  | .bool b => .ok b
  | j => .error (flawOf j)

/-- A binary64 number; whole numbers count too. -/
def float : Decoder Float
  | .number (.natural n) => .ok (Float.ofNat n)
  | .number (.negative n) => .ok (-Float.ofNat n)
  | .number (.real x) => .ok x
  | j => .error (flawOf j)

def naturalBelow (bound : Nat) : Decoder Nat
  | .number (.natural n) => if n < bound then .ok n else .error .mismatch
  | j => .error (flawOf j)

/-- A value or `null`. -/
def nullable (decode : Decoder β) : Decoder (Option β)
  | .null => .ok none
  | j => (decode j).map some

/-- An array of values. -/
def list (decode : Decoder β) : Decoder (List β)
  | .array items => items.mapM decode
  | j => .error (flawOf j)

/-- An object with arbitrary keys. Of two values for one key the later stays. -/
def dict (decode : Decoder β) : Decoder (Dict String β)
  | .object members => do
    let pairs ← members.mapM fun (key, j) =>
      match j with
      | .keyless _ => .error .malformed
      | j => do
        let b ← decode j
        pure (key, b)
    pure (Dict.ofPairs pairs)
  | j => .error (flawOf j)

/-- One of several names. -/
def word (ofName? : String → Option β) : Decoder β := fun j => do
  (ofName? (← text j)).elim (.error .mismatch) .ok

/-- One of several names. Instead of the name alone, an object may stand with the name as its only
    key and `null` at it. A wrong name is noticed before what follows it. -/
def name (ofName? : String → Option β) : Decoder β
  | .text s => word ofName? (.text s)
  | .object ((_, .keyless _) :: _) => .error .malformed
  | .object ((key, j) :: rest) =>
    match ofName? key, j with
    | none, _ => .error .mismatch
    | some b, .null => if rest.isEmpty then .ok b else .error .malformed
    | some _, j => .error (flawOf j)
  | _ => .error .malformed

end Decode

/-! ## Records -/

/-- How a record is read: the slots that are filled while its parts are looked at, and the value
    of the filled slots. -/
structure Record (β : Type) where
  Slots : Type
  blank : Slots
  /-- Fills the slot of a name; nothing if no field has the name. -/
  fillNamed : String → Json → Slots → Option (Except Flaw Slots)
  /-- Fills the next empty slot; nothing if there is none. -/
  fillNext : Json → Slots → Option (Except Flaw Slots)
  /-- The value of slots that were filled by name. -/
  closeNamed : Slots → Except Flaw β
  /-- The value of slots that were filled by place. -/
  closePlaced : Slots → Except Flaw β

namespace Record

variable {β γ : Type}

/-- A record of one field. `absent` is its value where the name is missing, `short` its value where
    the array ends before it. -/
def fieldOr (name : String) (decode : Decoder β) (absent short : Option β) : Record β where
  Slots := Option β
  blank := none
  fillNamed key j slot :=
    if key = name then some (if slot.isSome then .error .mismatch else (decode j).map some)
    else none
  fillNext j slot := if slot.isSome then none else some ((decode j).map some)
  closeNamed slot := ((slot <|> absent).elim (.error .mismatch) .ok)
  closePlaced slot := ((slot <|> short).elim (.error .mismatch) .ok)

/-- A record without fields. -/
def empty (b : β) : Record β where
  Slots := Unit
  blank := ()
  fillNamed _ _ _ := none
  fillNext _ _ := none
  closeNamed _ := .ok b
  closePlaced _ := .ok b

/-- A field that has to be there. -/
def field (name : String) (decode : Decoder β) : Record β := fieldOr name decode none none

def fieldWithDefault (name : String) (decode : Decoder β) (default : β) : Record β :=
  fieldOr name decode (some default) (some default)

/-- The fields of two records, those of the first before those of the second. -/
def and (r : Record β) (q : Record γ) : Record (β × γ) where
  Slots := r.Slots × q.Slots
  blank := (r.blank, q.blank)
  fillNamed key j slots :=
    match r.fillNamed key j slots.1 with
    | some filled => some (filled.map (·, slots.2))
    | none => (q.fillNamed key j slots.2).map fun filled => filled.map (slots.1, ·)
  fillNext j slots :=
    match r.fillNext j slots.1 with
    | some filled => some (filled.map (·, slots.2))
    | none => (q.fillNext j slots.2).map fun filled => filled.map (slots.1, ·)
  closeNamed slots := do
    let b ← r.closeNamed slots.1
    let c ← q.closeNamed slots.2
    pure (b, c)
  closePlaced slots := do
    let b ← r.closePlaced slots.1
    let c ← q.closePlaced slots.2
    pure (b, c)

/-- The record with another reading of its value. -/
def map (r : Record β) (f : β → γ) : Record γ :=
  { r with
    closeNamed := fun slots => (r.closeNamed slots).map f
    closePlaced := fun slots => (r.closePlaced slots).map f }

/-- Takes a member of an object. A name that no field has is passed over. -/
def takeMember (r : Record β) (slots : r.Slots) (entry : String × Json) : Except Flaw r.Slots :=
  match entry.2 with
  | .keyless _ => .error .malformed
  | j =>
    match r.fillNamed entry.1 j slots with
    | some filled => filled
    | none => (Decode.skip j).map fun _ => slots

/-- Takes an item of an array. -/
def takeItem (r : Record β) (slots : r.Slots) (j : Json) : Except Flaw r.Slots :=
  match r.fillNext j slots with
  | some filled => filled
  | none => .error .malformed

/-- Reads a record off a value. -/
def decode (r : Record β) : Decoder β
  | .object members => members.foldlM r.takeMember r.blank >>= r.closeNamed
  | .array items => items.foldlM r.takeItem r.blank >>= r.closePlaced
  | j => .error (Decode.flawOf j)

end Record

/-! ## Tags -/

/-- Reads a value whose sort is told by its tag: by the member of that name of an object, or by the
    first item of an array. What stands beside the tag makes up the fields. The value is kept whole
    until its tag is found, and what is kept can only be of another form than expected. -/
def Decode.tagged {β : Type} (name : String) (ofTagged : Json → Json → Except Flaw β) :
    Decoder β := fun j =>
  if !j.isUsable then .error .malformed
  else
    let read : Except Flaw β :=
      match j with
      | .object members =>
        match members.filter (·.1 = name) with
        | [(_, tag)] => ofTagged tag (.object (members.filter (·.1 ≠ name)))
        | _ => .error .mismatch
      | .array (tag :: fields) => ofTagged tag (.array fields)
      | _ => .error .mismatch
    read.mapError fun _ => .mismatch

end QueryCanvas.Json
