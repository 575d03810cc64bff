/-
  QueryCanvas.Wire.Results

  The JSON form of answers to queries, and of tables.
-/

import QueryCanvas.Json.Reader
import QueryCanvas.Json.Record
import QueryCanvas.Service

namespace QueryCanvas

open Json (Decoder Record)

/-- A member that is left out if there is no text. -/
def Json.memberOfText? (key : String) : Option String → List (String × Json)
  | some s => [(key, .text s)]
  | none => []

namespace BoundTerm

def toJson (t : BoundTerm) : Json :=
  .object ([("type", .text t.termType), ("value", .text t.value)]
    ++ Json.memberOfText? "datatype" t.datatype ++ Json.memberOfText? "xml:lang" t.language)

def record : Record BoundTerm :=
  let optionalText (name : String) : Record (Option String) :=
    .fieldWithDefault name (Json.Decode.nullable Json.Decode.text) none
  ((Record.fieldWithDefault "type" Json.Decode.text "").and <|
    (Record.field "value" Json.Decode.text).and <|
    (optionalText "datatype").and (optionalText "xml:lang")).map
    fun (termType, value, datatype, language) => ⟨termType, value, datatype, language⟩

def ofJson : Decoder BoundTerm := record.decode

end BoundTerm

namespace Binding

def toJson (b : Binding) : Json := .object (b.entries.map fun (name, t) => (name, t.toJson))

def ofJson : Decoder Binding := Json.Decode.dict BoundTerm.ofJson

end Binding

namespace Results

def toJson (r : Results) : Json :=
  .object [("head", .object [("vars", .array (r.columns.map Json.text))]),
    ("results", .object [("bindings", .array (r.bindings.map Binding.toJson))])]

/-- The variables inside the head. -/
def headRecord : Record (List String) :=
  .fieldWithDefault "vars" (Json.Decode.list Json.Decode.text) []

/-- The solutions inside the body. -/
def bodyRecord : Record (List Binding) :=
  .fieldWithDefault "bindings" (Json.Decode.list Binding.ofJson) []

/-- The head has to be there; the body may be left out, as in an answer without solutions. -/
def record : Record Results :=
  ((Record.field "head" headRecord.decode).and
    (.fieldWithDefault "results" bodyRecord.decode [])).map
    fun (columns, bindings) => ⟨columns, bindings⟩

def ofJson : Decoder Results := record.decode

/-- The answer in a text. -/
def read (s : String) : Except Json.Flaw Results := (Json.Document.read s).accept ofJson

end Results

def Table.toJson (t : Table) : Json :=
  .object [("columns", .array (t.columns.map Json.text)),
    ("rows", .array (t.rows.map fun row => .array (row.map Json.text)))]

end QueryCanvas
