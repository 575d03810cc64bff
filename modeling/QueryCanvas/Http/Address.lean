/-
  QueryCanvas.Http.Address

  Addresses of resources on the web, what of an address is sent to the server,
  and what a server makes of it.

  The path in a normal form and the query are sent. Both are percent-encoded where
  a character may not stand for itself. In the path the segments `.` and `..` are
  carried out, also where their dots are percent-encoded, so that none is left to
  the server.

  The target of a request says what it asks a server for: a path, or a whole
  address whose scheme and authority stand before the path. A query and a fragment
  may follow.
-/

import QueryCanvas.Text.Percent

namespace QueryCanvas.Http

open QueryCanvas.Text

/-- Where a request goes. -/
structure Address where
  /-- Host and port, in lower case. -/
  authority : String
  /-- The path, encoded. It starts with a slash. -/
  path : String
  /-- The query, encoded, without its question mark. -/
  query : Option String
deriving DecidableEq, Repr

namespace Address

/-- What a request asks the server for: path and query. -/
def target (a : Address) : String := a.path ++ (a.query.map ("?" ++ ·)).getD ""

/-- The address with one more field at the end of its query. -/
def withField (a : Address) (name value : String) : Address :=
  let front := match a.query with
    | none | some "" => ""
    | some fields => fields ++ "&"
  { a with query := some (front ++ formField name value) }

/-! ## Characters that stand for themselves -/

/-- Printable ASCII without the space, and without the given characters. -/
def isPlainExcept (special : String) (b : UInt8) : Bool :=
  0x21 ≤ b && b ≤ 0x7E && !special.toList.contains (Char.ofNat b.toNat)

/-- The bytes that stand for themselves in a path. -/
def isPathByte (b : UInt8) : Bool := isPlainExcept "\"#<>?`\x7b\x7d" b

/-- The bytes that stand for themselves in a query. -/
def isQueryByte (b : UInt8) : Bool := isPlainExcept "\"#<>'" b

/-! ## Paths -/

/-- What a segment of a path does. -/
inductive Step
  /-- Stays where it is. -/
  | here
  /-- Leaves the last segment. -/
  | up
  | into (segment : String)
deriving DecidableEq, Repr

/-- The number of dots in a text that holds nothing else. An encoded dot counts as a dot. -/
def dotCount? : List Char → Option Nat
  | [] => some 0
  | '.' :: rest => (dotCount? rest).map (· + 1)
  | '%' :: '2' :: 'e' :: rest | '%' :: '2' :: 'E' :: rest => (dotCount? rest).map (· + 1)
  | _ => none

def Step.of (segment : String) : Step :=
  match dotCount? segment.toList with
  | some 1 => here
  | some 2 => up
  | _ => into segment

/-- Carries out the segments of a path; `passed` are the ones before, the last of them first. A
    step that is not into a segment ends in a slash. -/
def walk (passed : List String) : List String → List String
  | [] => passed.reverse
  | [segment] =>
    match Step.of segment with
    | .here => ("" :: passed).reverse
    | .up => ("" :: passed.drop 1).reverse
    | .into segment => (segment :: passed).reverse
  | segment :: rest =>
    match Step.of segment with
    | .here => walk passed rest
    | .up => walk (passed.drop 1) rest
    | .into segment => walk (segment :: passed) rest

def normalPath (path : List Char) : String :=
  let segments := match path with
    | '/' :: rest | '\\' :: rest => rest.splitOnP fun c => c = '/' || c = '\\'
    | cs => [cs]
  let encoded := segments.map fun cs => percentEncode isPathByte (String.ofList cs)
  "/" ++ joinWith "/" (walk [] encoded)

/-! ## Reading addresses -/

def endsAuthority (c : Char) : Bool := c = '/' || c = '\\' || c = '?' || c = '#'

/-- True for what may stand in the name of a host: no blank or control character and nothing that
    has a meaning elsewhere in an address. -/
def isHostChar (c : Char) : Bool :=
  0x20 < c.toNat && c.toNat ≠ 0x7F && !"#%/:<>?@[\\]^|".toList.contains c

/-- True for what may stand between the brackets of a numeric host. -/
def isNumericHostChar (c : Char) : Bool := (hexValue? c).isSome || c = ':' || c = '.'

/-- The text behind a host, if there is one in front: a name, or numbers in brackets. -/
def behindHost? : List Char → Option (List Char)
  | '[' :: rest =>
    let numbers := rest.takeWhile (· ≠ ']')
    if numbers.isEmpty || !numbers.all isNumericHostChar then none
    else (cutAtFirst? ']' rest).map Prod.snd
  | cs =>
    let name := cs.takeWhile (· ≠ ':')
    if name.isEmpty || !name.all isHostChar then none else some (cs.dropWhile (· ≠ ':'))

/-- A port behind a host: nothing, or a colon and a number of 16 bits, which may be missing. -/
def isPort : List Char → Bool
  | [] => true
  | c :: cs => c = ':' && cs.all Char.isDigit && digitsValue 10 cs < 0x10000

/-- Host and port, without the name of a user in front. -/
def authority? (cs : List Char) : Option String := do
  let named := (cutAfterLast (· = '@') cs).2
  if isPort (← behindHost? named) then pure (String.ofList (named.map Char.toLower)) else none

/-- What stands behind the scheme of a web address. -/
def behindScheme? (cs : List Char) : Option (List Char) :=
  let scheme := cs.takeWhile (· ≠ ':')
  let rest := (cs.dropWhile (· ≠ ':')).drop 1
  if ["http", "https"].contains (String.ofList (scheme.map Char.toLower)) then
    some (rest.dropWhile fun c => c = '/' || c = '\\')
  else none

/-- The text of an address without blanks around it and without line ends and tabs in it. -/
def trimmed (s : String) : List Char :=
  let isEdge (c : Char) : Bool := c.toNat ≤ 0x20
  let front := s.toList.dropWhile isEdge
  (front.reverse.dropWhile isEdge).reverse.filter fun c => c ≠ '\t' && c ≠ '\n' && c ≠ '\x0d'

/-- The address that a text writes, if it is one of the web. What stands behind a `#` is not part of
    it. -/
def ofText? (s : String) : Option Address := do
  let rest ← behindScheme? (trimmed s)
  let authority ← authority? (rest.takeWhile (!endsAuthority ·))
  -- neither the authority nor the path can hold the marks that end them
  let resource := (rest.dropWhile (!endsAuthority ·)).takeWhile (· ≠ '#')
  let path := resource.takeWhile (· ≠ '?')
  let query := match resource.dropWhile (· ≠ '?') with
    | [] => none
    | _ :: query => some (percentEncode isQueryByte (String.ofList query))
  pure ⟨authority, normalPath path, query⟩

end Address

/-! ## Targets of requests -/

namespace Target

/-- The characters of the name of a scheme. -/
def isSchemeChar (c : Char) : Bool := c.isAlphanum || c = '+' || c = '-' || c = '.'

/-- The characters that end the authority of an address. -/
def endsAuthority (c : Char) : Bool := c = '/' || c = '?' || c = '#'

/-- What stands behind scheme and authority, or all of a target that has none. -/
def behindAuthority (target : List Char) : List Char :=
  match target.dropWhile isSchemeChar with
  | ':' :: '/' :: '/' :: rest => rest.dropWhile (!endsAuthority ·)
  | _ => target

def path (target : String) : List Char :=
  (behindAuthority target.toList).takeWhile fun c => c ≠ '?' && c ≠ '#'

/-- The parts of the path of a target between its slashes. -/
def segments (target : String) : List String := ((path target).splitOn '/').map String.ofList

end Target

end QueryCanvas.Http
