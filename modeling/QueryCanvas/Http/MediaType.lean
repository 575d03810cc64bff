/-
  QueryCanvas.Http.MediaType

  Media types: what kind of content the body of a message holds.

  A media type is written as a type and a subtype with a slash between them. The
  subtype may have a suffix behind a plus sign, as in `image/svg+xml`, and
  parameters may follow behind a semicolon. Case does not matter.
-/

import QueryCanvas.Text.Scan

namespace QueryCanvas.Http

open QueryCanvas.Text

/-- A media type in lower case, without its parameters. -/
structure MediaType where
  type : String
  /-- What stands between the slash and the suffix. -/
  subtype : String
  /-- What stands behind the last plus sign, if there is one. -/
  suffix : Option String
deriving DecidableEq, Repr

namespace MediaType

/-! ## Parts -/

/-- The characters of names, and of values without quotes. -/
def isTokenChar (c : Char) : Bool :=
  c.isAlphanum || "!#$%&'*+-.^_|~\x60".toList.contains c

/-- One or more characters of names. -/
def token : Scan (List Char) := Scan.run1 isTokenChar

/-- The characters that may stand between quotes: the printable ones of ASCII. -/
def isQuotedChar (c : Char) : Bool := 0x20 ≤ c.toNat && c.toNat ≤ 0x7E

/-- Blanks around parameters. -/
def blanks : Scan Unit := do let _ ← Scan.run (· = ' ')

/-- Cuts the name behind the slash at its last plus sign. A plus sign in front is part of the
    subtype, which is never empty. -/
def splitSuffix : List Char → List Char × Option (List Char)
  | [] => ([], none)
  | c :: cs =>
    match cutAfterLast (· = '+') cs with
    | ([], _) => (c :: cs, none)
    | (front, suffix) => (c :: front.dropLast, some suffix)

/-! ## Parameters -/

/-- A value in quotes, with the blanks behind it. It is not empty; its first character may be a
    quote. -/
def quotedValue : Scan Unit := do
  Scan.text "\""
  let _ ← Scan.char isQuotedChar
  let _ ← Scan.run fun c => isQuotedChar c && c ≠ '"'
  Scan.text "\""
  blanks

/-- A name with a value, up to the next semicolon or the end of the text. Only at the end of the
    text may the value be missing. -/
def parameter : Scan Unit := do
  let _ ← token
  Scan.text "="
  quotedValue <|> (do let _ ← token) <|> Scan.atEnd
  Scan.text ";" <|> Scan.atEnd

/-- What follows the names: nothing, or a semicolon and parameters with blanks before them. -/
def parameters : Scan Unit := do
  let _ ← Scan.optional do
    Scan.text ";"
    Scan.many (Scan.text " " <|> parameter)

/-! ## Reading -/

def scan : Scan MediaType := do
  let type ← token
  Scan.text "/"
  let (subtype, suffix) := splitSuffix (← token)
  parameters
  let lower (cs : List Char) : String := String.ofList (cs.map Char.toLower)
  pure ⟨lower type, lower subtype, suffix.map lower⟩

/-- The media type that a text writes. -/
def ofText? (s : String) : Option MediaType := scan.whole? s

/-- True for `application/json`, and for types of applications with the suffix `json`. -/
def isJson (m : MediaType) : Bool :=
  m.type = "application" && (m.subtype = "json" || m.suffix = some "json")

end MediaType

end QueryCanvas.Http
