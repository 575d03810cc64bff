/-
  QueryCanvas.Json.Reader

  Reading JSON texts.

  A text is cut into tokens, and the tokens are put together with a stack of
  the arrays and objects that are still open. Where the text stops being JSON,
  everything that is open is closed around the broken place, so that what was
  read before it can still be looked at.
-/

import QueryCanvas.Json.Number

namespace QueryCanvas.Json

open QueryCanvas.Text

/-! ## Tokens -/

/-- The smallest parts of a JSON text. -/
inductive Token
  | openArray
  | closeArray
  | openObject
  | closeObject
  | comma
  | colon
  /-- A value without parts. -/
  | scalar (value : Json)
  /-- Not a token. -/
  | bad

/-- The code of one character of a string, also where it is escaped. -/
def characterCode : Scan Nat :=
  (do pure (← Scan.char fun c => 0x20 ≤ c.toNat && c ≠ '"' && c ≠ '\\').toNat)
  <|> do
    Scan.text "\\"
    match ← Scan.char fun _ => true with
    | '"' => pure 0x22
    | '\\' => pure 0x5C
    | '/' => pure 0x2F
    | 'b' => pure 0x8
    | 'f' => pure 0xC
    | 'n' => pure 0xA
    | 'r' => pure 0xD
    | 't' => pure 0x9
    | 'u' => do
      let code ← Scan.count 4 fun c => (hexValue? c).isSome
      pure (digitsValue 16 code)
    | _ => failure

/-- The first half of a surrogate pair. -/
def isHighSurrogate (code : Nat) : Bool := 0xD800 ≤ code && code ≤ 0xDBFF

/-- The second half of a surrogate pair. -/
def isLowSurrogate (code : Nat) : Bool := 0xDC00 ≤ code && code ≤ 0xDFFF

/-- The characters of a string. Two halves of a surrogate pair make one character; a half by itself
    makes none. -/
def charactersOf? : List Nat → Option (List Char)
  | [] => some []
  | [code] =>
    if isHighSurrogate code || isLowSurrogate code then none else some [Char.ofNat code]
  | code :: next :: rest =>
    if isHighSurrogate code then
      if isLowSurrogate next then
        (charactersOf? rest).map
          (Char.ofNat (0x10000 + (code - 0xD800) * 0x400 + (next - 0xDC00)) :: ·)
      else none
    else if isLowSurrogate code then none
    else (charactersOf? (next :: rest)).map (Char.ofNat code :: ·)

def stringScan : Scan Json := do
  Scan.text "\""
  let codes ← Scan.many characterCode
  Scan.text "\""
  match charactersOf? codes with
  | some cs => pure (.text (String.ofList cs))
  | none => pure .unpaired

/-- A value without parts. -/
def scalarScan : Scan Json :=
  stringScan
    <|> (do Scan.text "null"; pure .null)
    <|> (do Scan.text "true"; pure (.bool true))
    <|> (do Scan.text "false"; pure (.bool false))
    <|> (do pure (.number (← numberScan)))

def isJsonBlank (c : Char) : Bool := c = ' ' || c = '\n' || c = '\t' || c = '\x0d'

/-- One token, with the blanks before it. -/
def token : Scan Token := do
  let _ ← Scan.run isJsonBlank
  (do
    match ← Scan.char fun c => "[]{},:".toList.contains c with
    | '[' => pure .openArray
    | ']' => pure .closeArray
    | ',' => pure .comma
    | ':' => pure .colon
    | c => pure (if c = '\x7b' then .openObject else .closeObject))
  <|> (do pure (.scalar (← scalarScan)))

/-- The tokens of a text, up to the first place where there is none. -/
def tokens (s : String) : List Token :=
  match Scan.many token s.toList with
  | some (found, rest) => if rest.all isJsonBlank then found else found ++ [.bad]
  | none => [.bad]

/-! ## Putting tokens together -/

/-- An array or object that is still open, its parts last first. -/
inductive Frame
  | items (items : List Json)
  | members (members : List (String × Json))
  /-- An object whose last key waits for its value; the key is missing if it is no text. -/
  | member (members : List (String × Json)) (key : Option String)

/-- What may come next. -/
inductive Place
  | value
  /-- Directly behind an opening bracket. -/
  | firstItem
  /-- Directly behind an opening brace. -/
  | firstKey
  | key
  | colon
  /-- Behind a value in an array or object. -/
  | next
deriving DecidableEq, Repr

/-- A member, given its key if there is one that is a text. -/
def memberOf (key : Option String) (value : Json) : String × Json :=
  match key with
  | some key => (key, value)
  | none => ("", .keyless value)

/-- The value of an open array or object that ends with the given part. -/
def Frame.endWith (part : Json) : Frame → Json
  | .items before => .array (before.reverse ++ [part])
  | .members before => .object (before.reverse ++ [memberOf none part])
  | .member before key => .object (before.reverse ++ [memberOf key part])

/-- Puts a value into an open array or object. -/
def Frame.add (value : Json) : Frame → Frame
  | .items before => .items (value :: before)
  | .members before => .members (memberOf none value :: before)
  | .member before key => .members (memberOf key value :: before)

/-- A text as JSON: its value, and whether more follows behind it. -/
structure Document where
  value : Json
  trailing : Bool

/-- Closes everything that is open around a broken place. -/
def abandon (stack : List Frame) : Document := ⟨stack.foldl Frame.endWith .broken, false⟩

/-- How many arrays and objects may stand around a part, itself among them, if it is to be used. -/
def nestingLimit : Nat := 127

/-- A finished array or object, given what is open around it. -/
def nested (outer : List Frame) (value : Json) : Json :=
  if (outer.drop (nestingLimit - 1)).isEmpty then value else .tooDeep

/-- Puts tokens together. `stack` holds what is open, innermost first. -/
def assemble : List Frame → Place → List Token → Document
  | stack, _, [] => abandon stack
  | stack, place, token :: rest =>
    -- a finished value goes into what is open around it, or it is the value of the text
    let deliver (stack : List Frame) (value : Json) : Document :=
      match stack with
      | [] => ⟨value, !rest.isEmpty⟩
      | frame :: outer => assemble (frame.add value :: outer) .next rest
    match place, token, stack with
    | .value, .scalar value, stack | .firstItem, .scalar value, stack => deliver stack value
    | .value, .openArray, stack | .firstItem, .openArray, stack =>
      assemble (.items [] :: stack) .firstItem rest
    | .value, .openObject, stack | .firstItem, .openObject, stack =>
      assemble (.members [] :: stack) .firstKey rest
    | .firstItem, .closeArray, .items found :: outer
    | .next, .closeArray, .items found :: outer =>
      deliver outer (nested outer (.array found.reverse))
    | .firstKey, .closeObject, .members found :: outer
    | .next, .closeObject, .members found :: outer =>
      deliver outer (nested outer (.object found.reverse))
    | .firstKey, .scalar (.text key), .members found :: outer
    | .key, .scalar (.text key), .members found :: outer =>
      assemble (.member found (some key) :: outer) .colon rest
    | .firstKey, .scalar .unpaired, .members found :: outer
    | .key, .scalar .unpaired, .members found :: outer =>
      assemble (.member found none :: outer) .colon rest
    | .colon, .colon, stack => assemble stack .value rest
    | .next, .comma, .items found :: outer => assemble (.items found :: outer) .value rest
    | .next, .comma, .members found :: outer => assemble (.members found :: outer) .key rest
    | _, _, stack => abandon stack

/-- A text as JSON. -/
def Document.read (s : String) : Document := assemble [] .value (tokens s)

/-- Accepts a document by its value; nothing may follow the value. -/
def Document.accept {β : Type} (d : Document) (decode : Json → Except Flaw β) : Except Flaw β := do
  let b ← decode d.value
  if d.trailing then .error .malformed else pure b

end QueryCanvas.Json
