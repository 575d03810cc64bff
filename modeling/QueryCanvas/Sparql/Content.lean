/-
  QueryCanvas.Sparql.Content

  What a text typed into a node or an edge stands for. The rules for nodes are
  ordered: literal, anything with a colon, named variable, anonymous variable,
  and an IRI otherwise.

  The lexical forms that count as literals are quoted strings with an optional
  language or datatype tag, the two booleans, and numbers. Every form is read from
  left to right without backing up. That is enough, because the character that
  ends a part never belongs to it: the first quote outside an escape closes a
  string, and the first character that is no digit ends a run of digits.
-/

import QueryCanvas.Text.Cut
import QueryCanvas.Text.Character

namespace QueryCanvas.Sparql

open QueryCanvas.Text

/-! ## Literal strings -/

/-- What follows the quote that closes a body. A backslash takes the next
    character with it, whatever it is, but does not reach over a line end. -/
def afterClosingQuote (quote : Char) : List Char → Option (List Char)
  | [] => none
  | '\\' :: [] => none
  | '\\' :: c :: cs => if c = '\n' then none else afterClosingQuote quote cs
  | c :: cs => if c = quote then some cs else afterClosingQuote quote cs

/-- An ASCII letter, as in a language tag. -/
def isTagLetter (c : Char) : Bool := c.isAlpha

/-- An ASCII letter or digit, as in the later parts of a language tag. -/
def isTagAlphanumeric (c : Char) : Bool := c.isAlphanum

/-- The later parts of a language tag: any number of hyphens, each followed by
    letters and digits. `fresh` holds directly behind a hyphen. -/
def isSubtags (fresh : Bool) : List Char → Bool
  | [] => !fresh
  | c :: cs =>
    if isTagAlphanumeric c then isSubtags false cs else c = '-' && !fresh && isSubtags true cs

/-- A language tag: letters, then hyphenated parts of letters and digits. -/
def isLanguageTag (cs : List Char) : Bool :=
  !(cs.takeWhile isTagLetter).isEmpty &&
    match cs.dropWhile isTagLetter with
    | [] => true
    | c :: rest => c = '-' && isSubtags true rest

/-- A datatype: one or more characters, none of them white space. -/
def isDatatype (cs : List Char) : Bool := !cs.isEmpty && cs.all (!isWhiteSpace ·)

/-- What may follow a closing quote: nothing, `@` and a language tag, or `^^` and a datatype. -/
def isLiteralTag : List Char → Bool
  | [] => true
  | '@' :: cs => isLanguageTag cs
  | '^' :: '^' :: cs => isDatatype cs
  | _ => false

/-- A string between two of the given quotes, with its tag. -/
def isQuoted (quote : Char) : List Char → Bool
  | [] => false
  | c :: cs => c = quote &&
    match afterClosingQuote quote cs with
    | none => false
    | some rest => isLiteralTag rest

/-! ## Literal numbers -/

def dropSign : List Char → List Char
  | '+' :: cs => cs
  | '-' :: cs => cs
  | cs => cs

/-- One or more decimal digits and nothing else. -/
def isDigits (cs : List Char) : Bool := !cs.isEmpty && cs.all isDecimalDigit

/-- Nothing, or an exponent: `e` or `E`, an optional sign, digits. -/
def isExponentTail : List Char → Bool
  | [] => true
  | c :: cs => (c = 'e' || c = 'E') && isDigits (dropSign cs)

/-- Digits with an optional point among, behind or before them, then an optional exponent. -/
def isUnsignedNumber (cs : List Char) : Bool :=
  let whole := cs.takeWhile isDecimalDigit
  match cs.dropWhile isDecimalDigit with
  | '.' :: rest =>
    !(whole.isEmpty && (rest.takeWhile isDecimalDigit).isEmpty) &&
      isExponentTail (rest.dropWhile isDecimalDigit)
  | rest => !whole.isEmpty && isExponentTail rest

/-- A number with an optional sign. -/
def isNumber (cs : List Char) : Bool := isUnsignedNumber (dropSign cs)

/-! ## All forms of literals -/

/-- True if `s` is the lexical form of a literal. -/
def isLiteral (s : String) : Bool :=
  isQuoted '"' s.toList || isQuoted '\'' s.toList || s = "true" || s = "false" || isNumber s.toList

/-! ## Variables and names -/

/-- The content of an anonymous variable. -/
def anonymous : String := "?"

/-- True if a colon stands somewhere in the text. -/
def hasColon (s : String) : Bool := s.toList.contains ':'

/-- True for a text that starts with a question mark. -/
def isVariable (s : String) : Bool :=
  match s.toList with
  | '?' :: _ => true
  | _ => false

/-- True for a question mark with a name behind it. -/
def isNamedVariable (s : String) : Bool :=
  match s.toList with
  | '?' :: _ :: _ => true
  | _ => false

/-- The text behind the last colon, the whole text if there is none. -/
def localName (s : String) : String := String.ofList (cutAfterLast (· == ':') s.toList).2

end QueryCanvas.Sparql
