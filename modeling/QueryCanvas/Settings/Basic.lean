/-
  QueryCanvas.Settings.Basic

  The settings of the program, their defaults, and which settings are usable.
-/

import QueryCanvas.Decimal
import QueryCanvas.Diagram.Kind
import QueryCanvas.Scalar.Binary64
import QueryCanvas.Text.Character

namespace QueryCanvas

/-! ## The settings -/

/-- Where queries are answered. -/
structure EndpointSettings where
  queryUrl : String
  /-- The media type that is asked for. -/
  accept : String
deriving DecidableEq, Repr

/-- Where prefixes are resolved. -/
structure PrefixServiceSettings where
  url : String
  expandPath : String
  shrinkPath : String
deriving DecidableEq, Repr

structure Settings where
  endpoint : EndpointSettings
  prefixService : PrefixServiceSettings
  /-- The namespace of the empty prefix. -/
  baseNamespace : String
  sizes : ShapeSizes Float
deriving Repr

/-- The namespace of the empty prefix if nothing else is said. -/
def defaultBaseNamespace : String := "http://example.org/ontology#"

/-- The port that the server listens on if nothing else is said. -/
def defaultPort : Nat := 3333

def EndpointSettings.default : EndpointSettings :=
  ⟨"http://localhost:3030/ds/query", "application/sparql-results+json"⟩

def PrefixServiceSettings.default : PrefixServiceSettings :=
  ⟨"http://localhost:5000", "/expand", "/shrink"⟩

/-- The sizes in which nodes are drawn if nothing else is said. -/
def defaultSizes : ShapeSizes Float := ⟨80.0, 40.0, 12.0, 160.0, 50.0, 20.0, 200.0⟩

def Settings.default : Settings := ⟨.default, .default, defaultBaseNamespace, defaultSizes⟩

/-! ## Addresses of the prefix service -/

/-- A text without the slashes at its end. -/
def withoutTrailingSlashes (s : String) : String :=
  String.ofList (s.toList.reverse.dropWhile (· = '/')).reverse

namespace PrefixServiceSettings

def expandUrl (p : PrefixServiceSettings) : String := withoutTrailingSlashes p.url ++ p.expandPath

/-- Where IRIs are shortened. -/
def shrinkUrl (p : PrefixServiceSettings) : String := withoutTrailingSlashes p.url ++ p.shrinkPath

end PrefixServiceSettings

/-! ## Usable settings -/

inductive SettingsError
  /-- The file cannot be read. -/
  | unreadable
  /-- The file is not in the expected form. -/
  | malformed
  | emptyQueryUrl
  /-- A size is not a positive number. -/
  | badSize (name : String) (value : Float)
deriving Repr

/-- How sizes are shown in messages: without an exponent and without an empty fraction. -/
def sizeStyle : Decimal.Style := ⟨"NaN", "inf", ""⟩

/-- The wording of an error. What is wrong with a file is not told. -/
def SettingsError.message : SettingsError → String
  | unreadable => "Failed to read config file"
  | malformed => "Failed to parse config file"
  | emptyQueryUrl => "Invalid configuration: endpoint.query_url is empty"
  | badSize name value =>
    "Invalid configuration: shapes." ++ name ++ " must be positive, got " ++ sizeStyle.write value

/-- True for a finite number above zero. -/
def isUsableSize (x : Float) : Bool := x.isFinite && 0.0 < x

/-- The sizes that have to be positive, with their names. -/
def checkedSizes (s : ShapeSizes Float) : List (String × Float) :=
  [("node_size", s.nodeSize), ("literal_width", s.literalWidth),
   ("literal_height", s.literalHeight), ("placeholder_size", s.placeholderSize)]

/-- Refuses settings that cannot be worked with, with the first reason. -/
def Settings.validate (s : Settings) : Except SettingsError Unit :=
  if Text.isBlank s.endpoint.queryUrl then .error .emptyQueryUrl
  else
    match (checkedSizes s.sizes).find? (!isUsableSize ·.2) with
    | some (name, value) => .error (.badSize name value)
    | none => .ok ()

end QueryCanvas
