/-
  QueryCanvas.Wire.Diagram

  The JSON forms of diagrams, selections and clicks, and of suggestions and what
  comes of accepting them.
-/

import QueryCanvas.Json.Record
import QueryCanvas.Session.Suggestions

namespace QueryCanvas

open Json (Decoder Record)

/-! ## Identities and names -/

/-- Identities are unsigned 32-bit numbers. -/
def Json.Decode.identity : Decoder Nat := Json.Decode.naturalBelow 0x100000000

namespace NodeId

def toJson (id : NodeId) : Json := .natural id.index

def ofJson : Decoder NodeId := fun j => (Json.Decode.identity j).map NodeId.mk

end NodeId

namespace EdgeId

def toJson (id : EdgeId) : Json := .natural id.index

def ofJson : Decoder EdgeId := fun j => (Json.Decode.identity j).map EdgeId.mk

end EdgeId

namespace NodeKind

def name : NodeKind → String
  | unboundVariable => "UnboundVariable"
  | selectedVariable => "SelectedVariable"
  | uri => "Uri"
  | literal => "Literal"
  | amalgam => "Amalgam"
  | placeholder => "Placeholder"

def ofName? : String → Option NodeKind
  | "UnboundVariable" => some unboundVariable
  | "SelectedVariable" => some selectedVariable
  | "Uri" => some uri
  | "Literal" => some literal
  | "Amalgam" => some amalgam
  | "Placeholder" => some placeholder
  | _ => none

def toJson (kind : NodeKind) : Json := .text kind.name

def ofJson : Decoder NodeKind := Json.Decode.name ofName?

end NodeKind

namespace EdgeKind

def name : EdgeKind → String
  | boundProperty => "BoundProperty"
  | unboundProperty => "UnboundProperty"

def ofName? : String → Option EdgeKind
  | "BoundProperty" => some boundProperty
  | "UnboundProperty" => some unboundProperty
  | _ => none

def toJson (kind : EdgeKind) : Json := .text kind.name

def ofJson : Decoder EdgeKind := Json.Decode.name ofName?

end EdgeKind

namespace Mode

def name : Mode → String
  | drag => "Drag"
  | placeNode => "PlaceNode"
  | drawEdge => "DrawEdge"

def ofName? : String → Option Mode
  | "Drag" => some drag
  | "PlaceNode" => some placeNode
  | "DrawEdge" => some drawEdge
  | _ => none

def toJson (mode : Mode) : Json := .text mode.name

def ofJson : Decoder Mode := Json.Decode.name ofName?

end Mode

/-! ## Geometry -/

namespace Point

def toJson (p : Point Float) : Json :=
  .object [("x", .ofFloat p.x), ("y", .ofFloat p.y)]

def record : Record (Point Float) :=
  ((Record.field "x" Json.Decode.float).and (.field "y" Json.Decode.float)).map
    fun (x, y) => ⟨x, y⟩

def ofJson : Decoder (Point Float) := record.decode

end Point

namespace Shape

def toJson (s : Shape Float) : Json :=
  .object [("center", s.center.toJson), ("width", .ofFloat s.width), ("height", .ofFloat s.height),
    ("corner_radius", .ofFloat s.cornerRadius)]

def record : Record (Shape Float) :=
  ((Record.field "center" Point.ofJson).and <| (Record.field "width" Json.Decode.float).and <|
    (Record.field "height" Json.Decode.float).and (.field "corner_radius" Json.Decode.float)).map
    fun (center, width, height, cornerRadius) => ⟨center, width, height, cornerRadius⟩

def ofJson : Decoder (Shape Float) := record.decode

end Shape

/-! ## Elements -/

namespace Node

def toJson (n : Node Float) : Json :=
  .object [("id", n.id.toJson), ("kind", n.kind.toJson), ("content", .text n.content),
    ("position", n.position.toJson), ("shape", n.shape.toJson), ("is_optional", .bool n.isOptional),
    ("inferred_class", .ofText? n.inferredClass)]

/-- The class may be left out of an object, but not of an array. -/
def record : Record (Node Float) :=
  ((Record.field "id" NodeId.ofJson).and <| (Record.field "kind" NodeKind.ofJson).and <|
    (Record.field "content" Json.Decode.text).and <| (Record.field "position" Point.ofJson).and <|
    (Record.field "shape" Shape.ofJson).and <| (Record.field "is_optional" Json.Decode.bool).and
    (.fieldOr "inferred_class" (Json.Decode.nullable Json.Decode.text) (some none) none)).map
    fun (id, kind, content, position, shape, isOptional, inferredClass) =>
      ⟨id, kind, content, position, shape, isOptional, inferredClass⟩

def ofJson : Decoder (Node Float) := record.decode

end Node

namespace Endpoint

def toJson : Endpoint Float → Json
  | anchored node point =>
    .object [("type", .text "anchored"), ("node", node.toJson), ("point", point.toJson)]
  | free point => .object [("type", .text "free"), ("point", point.toJson)]

def anchoredRecord : Record (Endpoint Float) :=
  ((Record.field "node" NodeId.ofJson).and (.field "point" Point.ofJson)).map
    fun (node, point) => anchored node point

def freeRecord : Record (Endpoint Float) := (Record.field "point" Point.ofJson).map free

/-- The end whose sort is given beside its fields. -/
def ofTagged (tag fields : Json) : Except Json.Flaw (Endpoint Float) :=
  match tag with
  | .text "anchored" => anchoredRecord.decode fields
  | .text "free" => freeRecord.decode fields
  | _ => .error .mismatch

def ofJson : Decoder (Endpoint Float) := Json.Decode.tagged "type" ofTagged

end Endpoint

namespace Edge

def toJson (e : Edge Float) : Json :=
  .object [("id", e.id.toJson), ("kind", e.kind.toJson), ("content", .text e.content),
    ("subject", e.subject.toJson), ("object", e.object.toJson), ("is_optional", .bool e.isOptional),
    ("complete", .bool e.complete)]

def record : Record (Edge Float) :=
  ((Record.field "id" EdgeId.ofJson).and <| (Record.field "kind" EdgeKind.ofJson).and <|
    (Record.field "content" Json.Decode.text).and <| (Record.field "subject" Endpoint.ofJson).and <|
    (Record.field "object" Endpoint.ofJson).and <| (Record.field "is_optional" Json.Decode.bool).and
    (.field "complete" Json.Decode.bool)).map
    fun (id, kind, content, subject, object, isOptional, complete) =>
      ⟨id, kind, content, subject, object, isOptional, complete⟩

def ofJson : Decoder (Edge Float) := record.decode

end Edge

namespace Diagram

def toJson (d : Diagram Float) : Json :=
  .object [("nodes", .array (d.nodes.map Node.toJson)), ("edges", .array (d.edges.map Edge.toJson))]

def record : Record (Diagram Float) :=
  ((Record.field "nodes" (Json.Decode.list Node.ofJson)).and
    (.field "edges" (Json.Decode.list Edge.ofJson))).map fun (nodes, edges) => ⟨nodes, edges⟩

def ofJson : Decoder (Diagram Float) := record.decode

end Diagram

/-! ## Selections -/

namespace ElementRef

def toJson : ElementRef → Json
  | node id => .object [("type", .text "node"), ("id", id.toJson)]
  | edge id => .object [("type", .text "edge"), ("id", id.toJson)]

/-- The elements of a sort, by their number. -/
def ofName? : String → Option (Nat → ElementRef)
  | "node" => some fun n => node ⟨n⟩
  | "edge" => some fun n => edge ⟨n⟩
  | _ => none

/-- What is known of an element while the members of its object are looked at. -/
inductive Draft
  | blank
  | sorted (make : Nat → ElementRef)
  /-- Its number came before its sort, so that it cannot be judged yet. -/
  | numbered (number : Json)
  | whole (element : ElementRef)

/-- Takes a member of an object. The number is judged as soon as the sort is known too. -/
def Draft.take (d : Draft) (entry : String × Json) : Except Json.Flaw Draft :=
  match entry with
  | (_, .keyless _) => .error .malformed
  | ("type", j) =>
    match d with
    | blank => sorted <$> Json.Decode.name ofName? j
    | numbered number => do
      let make ← Json.Decode.name ofName? j
      (whole ∘ make) <$> Json.Decode.identity number
    | sorted _ | whole _ => .error .mismatch
  | ("id", j) =>
    match d with
    | blank => numbered <$> Json.Decode.keep j
    | sorted make => (whole ∘ make) <$> Json.Decode.identity j
    | numbered _ | whole _ => .error .mismatch
  | (_, j) => (Json.Decode.skip j).map fun _ => d

/-- The element of which everything is known. -/
def Draft.close : Draft → Except Json.Flaw ElementRef
  | whole element => .ok element
  | blank | sorted _ | numbered _ => .error .mismatch

/-- Sort and number by their places. -/
def placed : Record ElementRef :=
  ((Record.field "type" (Json.Decode.word ofName?)).and (.field "id" Json.Decode.identity)).map
    fun (make, number) => make number

def ofJson : Decoder ElementRef
  | .object members => members.foldlM Draft.take .blank >>= Draft.close
  | j => placed.decode j

end ElementRef

namespace ElementKind

def toJson : ElementKind → Json
  | node kind => kind.toJson
  | edge kind => kind.toJson

/-- The names of the kinds of nodes and of edges differ, so that a name is enough. -/
def ofName? (s : String) : Option ElementKind :=
  ((NodeKind.ofName? s).map node) <|> ((EdgeKind.ofName? s).map edge)

def ofJson : Decoder ElementKind := fun j =>
  if !j.isUsable then .error .malformed
  else (Json.Decode.name ofName? j).mapError fun _ => .mismatch

end ElementKind

namespace Selection

def toJson (s : Selection) : Json :=
  .object [("element", s.element.toJson), ("content", .text s.content), ("kind", s.kind.toJson)]

def record : Record Selection :=
  ((Record.field "element" ElementRef.ofJson).and <| (Record.field "content" Json.Decode.text).and
    (.field "kind" ElementKind.ofJson)).map fun (element, content, kind) => ⟨element, content, kind⟩

def ofJson : Decoder Selection := record.decode

end Selection

/-! ## Clicks -/

namespace ClickOutcome

def toJson : ClickOutcome → Json
  | nodeCreated node => .object [("outcome", .text "node_created"), ("node", node.toJson)]
  | nodeSelected node => .object [("outcome", .text "node_selected"), ("node", node.toJson)]
  | edgeStarted edge => .object [("outcome", .text "edge_started"), ("edge", edge.toJson)]
  | edgeCompleted edge => .object [("outcome", .text "edge_completed"), ("edge", edge.toJson)]
  | edgePending edge => .object [("outcome", .text "edge_pending"), ("edge", edge.toJson)]
  | ignored => .object [("outcome", .text "ignored")]

/-- The outcome whose sort is given beside its fields. -/
def ofTagged (tag fields : Json) : Except Json.Flaw ClickOutcome :=
  let node := (Record.field "node" NodeId.ofJson).decode fields
  let edge := (Record.field "edge" EdgeId.ofJson).decode fields
  match tag with
  | .text "node_created" => node.map nodeCreated
  | .text "node_selected" => node.map nodeSelected
  | .text "edge_started" => edge.map edgeStarted
  | .text "edge_completed" => edge.map edgeCompleted
  | .text "edge_pending" => edge.map edgePending
  | .text "ignored" => (Record.empty ignored).decode fields
  | _ => .error .mismatch

def ofJson : Decoder ClickOutcome := Json.Decode.tagged "outcome" ofTagged

end ClickOutcome

/-! ## Suggestions -/

def Term.toJson (t : Term) : Json :=
  .object [("iri", .text t.iri), ("expansion", .text t.expansion), ("prefix", .text t.short),
    ("local_name", .text t.localName), ("label", .text t.label)]

def Suggestion.toJson : Suggestion → Json
  | edge s =>
    .object [("type", .text "edge"), ("index", .natural s.index), ("subject", s.subject.toJson),
      ("property", s.property.toJson), ("domain", s.domain.toJson), ("range", s.range.toJson)]
  | node s =>
    .object [("type", .text "node"), ("index", .natural s.index), ("edge", s.edge.toJson),
      ("kind", s.kind.toJson), ("class", s.cls.toJson)]

def Accepted.toJson : Accepted → Json
  | .edge n e => .object [("type", .text "edge"), ("node", n.toJson), ("edge", e.toJson)]
  | .node n => .object [("type", .text "node"), ("node", n.toJson)]

end QueryCanvas
