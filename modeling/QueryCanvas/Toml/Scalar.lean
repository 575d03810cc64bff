/-
  QueryCanvas.Toml.Scalar

  Values of a TOML document, and reading the parts of a document that hold no
  other values: blanks, comments, keys, strings, numbers, dates and times.
-/

import QueryCanvas.Decimal
import QueryCanvas.Text.Scan

namespace QueryCanvas

/-! ## Values -/

/-- A TOML value. Of dates and times only their presence is kept. -/
inductive Toml
  | string (text : String)
  | integer (value : Int)
  | float (value : Float)
  | boolean (value : Bool)
  | datetime
  | array (items : List Toml)
  | table (entries : List (String × Toml))

namespace Toml

def entry? (key : String) (entries : List (String × Toml)) : Option Toml :=
  (entries.find? (·.1 = key)).map (·.2)

/-- A text. -/
def asString? : Toml → Option String
  | string text => some text
  | _ => none

/-- A number; whole numbers count too. -/
def asFloat? : Toml → Option Float
  | float value => some value
  | integer value => some (Float.ofInt value)
  | _ => none

end Toml

end QueryCanvas

namespace QueryCanvas.Toml

open QueryCanvas.Text

/-! ## Blanks and comments -/

def isBlankChar (c : Char) : Bool := c = ' ' || c = '\t'

def isNonAscii (c : Char) : Bool := 0x80 ≤ c.toNat

/-- A tab or a printable character: what may stand in comments and strings. -/
def isPrintable (c : Char) : Bool :=
  c = '\t' || (0x20 ≤ c.toNat && c.toNat ≤ 0x7E) || isNonAscii c

def blanks : Scan Unit := do let _ ← Scan.run isBlankChar

/-- A line end. -/
def newline : Scan Unit := Scan.text "\n" <|> Scan.text "\r\n"

def comment : Scan Unit := do
  Scan.text "#"
  let _ ← Scan.run isPrintable

/-- Blanks, comments and line ends between the values of an array. -/
def gap : Scan Unit := do
  let _ ← Scan.many ((do let _ ← Scan.run1 isBlankChar) <|> newline <|> (do comment; newline))

/-- The rest of a line behind its last value: blanks, a comment, and the line end unless the text
    ends there. -/
def lineEnd : Scan Unit := do
  blanks
  let _ ← Scan.optional comment
  newline <|> Scan.atEnd

/-! ## Strings -/

/-- The character behind a backslash. -/
def escape : Scan Char := do
  Scan.text "\\"
  let c ← Scan.char fun _ => true
  let code (n : Nat) : Scan Char := do
    let digits ← Scan.count n fun c => (hexValue? c).isSome
    fun cs => (charOfCode? (digitsValue 16 digits)).map fun c => (c, cs)
  match c with
  | 'b' => pure '\x08'
  | 't' => pure '\t'
  | 'n' => pure '\n'
  | 'f' => pure '\x0c'
  | 'r' => pure '\x0d'
  | '"' => pure '"'
  | '\\' => pure '\\'
  | 'u' => code 4
  | 'U' => code 8
  | _ => failure

/-- A string in double quotes on one line. -/
def basicString : Scan String := do
  Scan.text "\""
  let body ← Scan.many (Scan.char (fun c => isPrintable c && c ≠ '"' && c ≠ '\\') <|> escape)
  Scan.text "\""
  pure (String.ofList body)

/-- A string in single quotes on one line. -/
def literalString : Scan String := do
  Scan.text "'"
  let body ← Scan.run fun c => isPrintable c && c ≠ '\''
  Scan.text "'"
  pure (String.ofList body)

/-- One or two quotes inside a text of several lines, not followed by a further one. -/
def innerQuotes (quote : Char) : Scan (List Char) := do
  let quotes ← Scan.run1 (· = quote)
  if quotes.length ≤ 2 then pure quotes else failure

/-- The three closing quotes, with up to two more before them that belong to the text. -/
def closingQuotes (quote : Char) : Scan (List Char) := fun cs =>
  let quotes := (cs.takeWhile (· = quote)).length
  if quotes < 3 then none
  else some (List.replicate (min quotes 5 - 3) quote, cs.drop (min quotes 5))

/-- A text of several lines between triple quotes, made of the given pieces. -/
def multiline (quote : Char) (piece : Scan (List Char)) : Scan String := do
  Scan.exactly [quote, quote, quote]
  let _ ← Scan.optional newline
  let body ← Scan.many (piece <|> innerQuotes quote <|> (do newline; pure ['\n']))
  let last ← closingQuotes quote
  pure (String.ofList (body.flatten ++ last))

/-- A backslash at the end of a line takes the line end and all blanks behind it away. -/
def lineContinuation : Scan (List Char) := do
  Scan.text "\\"
  blanks
  newline
  let _ ← Scan.many ((do let _ ← Scan.run1 isBlankChar) <|> newline)
  pure []

def multilineBasicString : Scan String :=
  multiline '"'
    (Scan.run1 (fun c => isPrintable c && c ≠ '"' && c ≠ '\\') <|> lineContinuation
      <|> (do pure [← escape]))

def multilineLiteralString : Scan String :=
  multiline '\'' (Scan.run1 fun c => isPrintable c && c ≠ '\'')

def anyString : Scan String :=
  multilineBasicString <|> basicString <|> multilineLiteralString <|> literalString

/-! ## Keys -/

def isBareKeyChar (c : Char) : Bool := c.isAlphanum || c = '-' || c = '_'

def simpleKey : Scan String :=
  basicString <|> literalString <|> (do pure (String.ofList (← Scan.run1 isBareKeyChar)))

/-- How deep values may be nested, and how many keys one path may have. -/
def depthLimit : Nat := 79

/-- Keys with points between them. -/
def dottedKey : Scan (List String) := do
  let first ← simpleKey
  let others ← Scan.many do
    blanks
    Scan.text "."
    blanks
    simpleKey
  if others.length < depthLimit then pure (first :: others) else failure

/-! ## Numbers -/

/-- Digits of a class, in groups with single underscores between them. -/
def digitGroups (p : Char → Bool) : Scan (List Char) := do
  let first ← Scan.run1 p
  let others ← Scan.many do
    Scan.text "_"
    Scan.run1 p
  pure (first ++ others.flatten)

/-- A sign: true for minus. -/
def sign : Scan Bool := do
  match ← Scan.optional (Scan.char fun c => c = '+' || c = '-') with
  | some '-' => pure true
  | _ => pure false

/-- Decimal digits without a leading zero. -/
def wholeDigits : Scan (List Char) := do
  let digits ← digitGroups Char.isDigit
  match digits with
  | '0' :: _ :: _ => failure
  | _ => pure digits

/-- A value in the range of 64-bit integers. -/
def inRange (value : Int) : Scan Toml :=
  if -0x8000000000000000 ≤ value ∧ value < 0x8000000000000000 then pure (.integer value)
  else failure

/-- A whole number in another base. -/
def basedInteger (mark : String) (base : Nat) (p : Char → Bool) : Scan Toml := do
  Scan.text mark
  let digits ← digitGroups p
  inRange (digitsValue base digits)

/-- A whole number. -/
def integerValue : Scan Toml :=
  basedInteger "0x" 16 (fun c => (hexValue? c).isSome)
    <|> basedInteger "0o" 8 (fun c => '0' ≤ c && c ≤ '7')
    <|> basedInteger "0b" 2 (fun c => c = '0' || c = '1')
    <|> do
      let negative ← sign
      let digits ← wholeDigits
      let value : Int := digitsValue 10 digits
      inRange (if negative then -value else value)

def exponentPart : Scan Int := do
  let _ ← Scan.char fun c => c = 'e' || c = 'E'
  let negative ← sign
  let digits ← digitGroups Char.isDigit
  let value : Int := digitsValue 10 digits
  pure (if negative then -value else value)

/-- A number with a fraction, an exponent or both. It must not be too large. -/
def decimalFloat : Scan Toml := do
  let negative ← sign
  let whole ← wholeDigits
  let fraction ← Scan.optional do
    Scan.text "."
    digitGroups Char.isDigit
  let exponent ← Scan.optional exponentPart
  if fraction.isNone && exponent.isNone then failure
  let fraction := fraction.getD []
  let magnitude := Decimal.toBinary64 (digitsValue 10 (whole ++ fraction))
    (exponent.getD 0 - fraction.length)
  if magnitude.isInf && !negative then failure
  pure (.float (if negative then -magnitude else magnitude))

/-- Infinity or what is not a number. -/
def specialFloat : Scan Toml := do
  let negative ← sign
  let magnitude : Float ←
    (do Scan.text "inf"; pure (1.0 / 0.0)) <|> (do Scan.text "nan"; pure (0.0 / 0.0))
  pure (.float (if negative then -magnitude else magnitude))

/-! ## Dates and times -/

/-- A number of `n` digits between two bounds. -/
def boundedNumber (n low high : Nat) : Scan Nat := do
  let digits ← Scan.count n Char.isDigit
  let value := digitsValue 10 digits
  if low ≤ value && value ≤ high then pure value else failure

def daysIn (year month : Nat) : Nat :=
  if month = 2 then
    if year % 4 = 0 && (year % 100 ≠ 0 || year % 400 = 0) then 29 else 28
  else if [4, 6, 9, 11].contains month then 30
  else 31

def date : Scan Unit := do
  let year ← boundedNumber 4 0 9999
  Scan.text "-"
  let month ← boundedNumber 2 1 12
  Scan.text "-"
  let _ ← boundedNumber 2 1 (daysIn year month)

def timeOfDay : Scan Unit := do
  let _ ← boundedNumber 2 0 23
  Scan.text ":"
  let _ ← boundedNumber 2 0 59
  Scan.text ":"
  let _ ← boundedNumber 2 0 60
  let _ ← Scan.optional do
    Scan.text "."
    Scan.run1 Char.isDigit

def timeOffset : Scan Unit := do
  let c ← Scan.char fun c => c = 'Z' || c = 'z' || c = '+' || c = '-'
  if c = '+' || c = '-' then
    let _ ← boundedNumber 2 0 23
    Scan.text ":"
    let _ ← boundedNumber 2 0 59

/-- A date, a time, or both. -/
def datetimeValue : Scan Toml :=
  (do
    date
    let _ ← Scan.optional do
      let _ ← Scan.char fun c => c = 'T' || c = 't' || c = ' '
      timeOfDay
      Scan.optional timeOffset
    pure .datetime)
  <|> (do timeOfDay; pure .datetime)

/-! ## All of them -/

/-- A value that holds no other values. -/
def scalar : Scan Toml :=
  (do pure (.string (← anyString)))
    <|> (do Scan.text "true"; pure (.boolean true))
    <|> (do Scan.text "false"; pure (.boolean false))
    <|> datetimeValue <|> decimalFloat <|> specialFloat <|> integerValue

end QueryCanvas.Toml
