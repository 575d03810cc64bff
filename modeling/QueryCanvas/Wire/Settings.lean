/-
  QueryCanvas.Wire.Settings

  Settings as they are written down: how they are read from a TOML document and
  written to one, and the JSON form of the sizes in which nodes are drawn. What is
  left out keeps its default, what is said beyond is passed over.
-/

import QueryCanvas.Json.Record
import QueryCanvas.Settings.Basic
import QueryCanvas.Toml.Reader

namespace QueryCanvas

namespace Settings

/-! ## Reading a settings file -/

/-- The values of a record with the given field names: by name from a table, by position from an
    array. -/
def fieldValues? (names : List String) (v : Toml) : Option (List (Option Toml)) :=
  match v with
  | .table entries => some (names.map fun name => Toml.entry? name entries)
  | .array items => some (names.zipIdx.map fun (_, position) => items[position]?)
  | .datetime => some (names.map fun _ => none)
  | _ => none

def valueOr {β : Type} (read? : Toml → Option β) (default : β) (v : Option Toml) : Option β :=
  match v with
  | none => some default
  | some v => read? v

def readEndpoint? (v : Toml) : Option EndpointSettings :=
  let default := EndpointSettings.default
  match fieldValues? ["query_url", "accept"] v with
  | some [queryUrl, accept] => do
    let queryUrl ← valueOr Toml.asString? default.queryUrl queryUrl
    let accept ← valueOr Toml.asString? default.accept accept
    pure ⟨queryUrl, accept⟩
  | _ => none

def readPrefixService? (v : Toml) : Option PrefixServiceSettings :=
  let default := PrefixServiceSettings.default
  match fieldValues? ["url", "expand_path", "shrink_path"] v with
  | some [url, expandPath, shrinkPath] => do
    let url ← valueOr Toml.asString? default.url url
    let expandPath ← valueOr Toml.asString? default.expandPath expandPath
    let shrinkPath ← valueOr Toml.asString? default.shrinkPath shrinkPath
    pure ⟨url, expandPath, shrinkPath⟩
  | _ => none

def readBaseNamespace? (v : Toml) : Option String :=
  match fieldValues? ["base_namespace"] v with
  | some [baseNamespace] => valueOr Toml.asString? defaultBaseNamespace baseNamespace
  | _ => none

def readSizes? (v : Toml) : Option (ShapeSizes Float) :=
  let default := defaultSizes
  let names := ["node_size", "variable_corner_radius", "uri_corner_radius", "literal_width",
    "literal_height", "placeholder_size", "suggestion_offset"]
  match fieldValues? names v with
  | some [nodeSize, variableCornerRadius, uriCornerRadius, literalWidth, literalHeight,
      placeholderSize, suggestionOffset] => do
    let nodeSize ← valueOr Toml.asFloat? default.nodeSize nodeSize
    let variableCornerRadius ←
      valueOr Toml.asFloat? default.variableCornerRadius variableCornerRadius
    let uriCornerRadius ← valueOr Toml.asFloat? default.uriCornerRadius uriCornerRadius
    let literalWidth ← valueOr Toml.asFloat? default.literalWidth literalWidth
    let literalHeight ← valueOr Toml.asFloat? default.literalHeight literalHeight
    let placeholderSize ← valueOr Toml.asFloat? default.placeholderSize placeholderSize
    let suggestionOffset ← valueOr Toml.asFloat? default.suggestionOffset suggestionOffset
    pure ⟨nodeSize, variableCornerRadius, uriCornerRadius, literalWidth, literalHeight,
      placeholderSize, suggestionOffset⟩
  | _ => none

/-- The settings in a TOML document. -/
def read? (text : String) : Option Settings := do
  let entries ← Toml.read? text
  let at? (key : String) := Toml.entry? key entries
  let endpoint ← valueOr readEndpoint? .default (at? "endpoint")
  let prefixService ← valueOr readPrefixService? .default (at? "prefix_service")
  let baseNamespace ← valueOr readBaseNamespace? defaultBaseNamespace (at? "ontology")
  let sizes ← valueOr readSizes? defaultSizes (at? "shapes")
  pure ⟨endpoint, prefixService, baseNamespace, sizes⟩

/-! ## Writing a settings file -/

/-- How sizes are written in a file: always with a fraction. -/
def fileStyle : Decimal.Style := ⟨"nan", "inf", ".0"⟩

/-- A hexadecimal digit. -/
def hexDigit (n : Nat) : Char := (Nat.digitChar n).toUpper

/-- A character inside a string in double quotes. -/
def quoteChar (c : Char) : List Char :=
  match c with
  | '"' => ['\\', '"']
  | '\\' => ['\\', '\\']
  | '\x08' => ['\\', 'b']
  | '\t' => ['\\', 't']
  | '\n' => ['\\', 'n']
  | '\x0c' => ['\\', 'f']
  | '\x0d' => ['\\', 'r']
  | c =>
    if Toml.isPrintable c then [c]
    else ['\\', 'u', '0', '0', hexDigit (c.toNat / 16), hexDigit (c.toNat % 16)]

/-- A string in double quotes. -/
def quote (s : String) : String := "\"" ++ String.ofList (s.toList.flatMap quoteChar) ++ "\""

def textLine (key value : String) : String := key ++ " = " ++ quote value ++ "\n"

def sizeLine (key : String) (value : Float) : String :=
  key ++ " = " ++ fileStyle.write value ++ "\n"

/-- The settings as a TOML document. -/
def write (s : Settings) : String :=
  "[endpoint]\n"
    ++ textLine "query_url" s.endpoint.queryUrl
    ++ textLine "accept" s.endpoint.accept
    ++ "\n[prefix_service]\n"
    ++ textLine "url" s.prefixService.url
    ++ textLine "expand_path" s.prefixService.expandPath
    ++ textLine "shrink_path" s.prefixService.shrinkPath
    ++ "\n[ontology]\n"
    ++ textLine "base_namespace" s.baseNamespace
    ++ "\n[shapes]\n"
    ++ sizeLine "node_size" s.sizes.nodeSize
    ++ sizeLine "variable_corner_radius" s.sizes.variableCornerRadius
    ++ sizeLine "uri_corner_radius" s.sizes.uriCornerRadius
    ++ sizeLine "literal_width" s.sizes.literalWidth
    ++ sizeLine "literal_height" s.sizes.literalHeight
    ++ sizeLine "placeholder_size" s.sizes.placeholderSize
    ++ sizeLine "suggestion_offset" s.sizes.suggestionOffset

end Settings

/-! ## Sizes in JSON -/

namespace ShapeSizes

open Json (Decoder Record)

/-- Sizes with the defaults for those that are left out. -/
def record : Record (ShapeSizes Float) :=
  let size (name : String) (default : Float) : Record Float :=
    .fieldWithDefault name Json.Decode.float default
  let default := defaultSizes
  ((size "node_size" default.nodeSize).and <|
    (size "variable_corner_radius" default.variableCornerRadius).and <|
    (size "uri_corner_radius" default.uriCornerRadius).and <|
    (size "literal_width" default.literalWidth).and <|
    (size "literal_height" default.literalHeight).and <|
    (size "placeholder_size" default.placeholderSize).and
    (size "suggestion_offset" default.suggestionOffset)).map
    fun (nodeSize, variableCornerRadius, uriCornerRadius, literalWidth, literalHeight,
        placeholderSize, suggestionOffset) =>
      ⟨nodeSize, variableCornerRadius, uriCornerRadius, literalWidth, literalHeight,
        placeholderSize, suggestionOffset⟩

def ofJson : Decoder (ShapeSizes Float) := record.decode

end ShapeSizes

end QueryCanvas
