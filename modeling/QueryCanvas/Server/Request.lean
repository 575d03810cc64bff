/-
  QueryCanvas.Server.Request

  Requests to the server and what they ask for.

  A request is judged in steps: the path names a resource, the method has to be
  the one of the resource, numbers in the path have to be numbers, and only
  then is the body looked at: its media type, its size and its form. Each step
  has its own status if it fails.
-/

import QueryCanvas.Http.MediaType
import QueryCanvas.Http.Address
import QueryCanvas.Json.Reader
import QueryCanvas.Text.Percent
import QueryCanvas.Wire.Diagram

namespace QueryCanvas.Server

open Json (Decoder Record)

/-- A request. Of its target only the path matters. -/
structure Request where
  method : String
  target : String
  contentType : Option String
  body : String
deriving DecidableEq, Repr

/-! ## Status codes -/

namespace Status

def ok : Nat := 200
def created : Nat := 201
def noContent : Nat := 204
def badRequest : Nat := 400
def notFound : Nat := 404
def methodNotAllowed : Nat := 405
def conflict : Nat := 409
def contentTooLarge : Nat := 413
def unsupportedMediaType : Nat := 415
def unprocessable : Nat := 422
def internalError : Nat := 500
def badGateway : Nat := 502

end Status

/-! ## Resources -/

/-- What a path names. Numbers are kept as they are written. -/
inductive Resource
  | graph
  | mode
  | click
  | nodes
  | node (id : String)
  | nodeContent (id : String)
  | nodePosition (id : String)
  | edges
  | pointer
  | completion
  | edge (id : String)
  | edgeContent (id : String)
  | edgeOptional (id : String)
  | selection
  | suggestions
  | suggestion (index : String)
  | acceptance (index : String)
  | query
  | execution
  | ontology
deriving DecidableEq, Repr

namespace Resource

/-- The resource at a path, given by the parts between its slashes. A number may be missing where
    more follows, so that it is judged later; at the end of a path it has to be there. -/
def ofSegments? : List String → Option Resource
  | ["", "api", "graph"] => some graph
  | ["", "api", "mode"] => some mode
  | ["", "api", "click"] => some click
  | ["", "api", "nodes"] => some nodes
  | ["", "api", "edges"] => some edges
  | ["", "api", "select"] => some selection
  | ["", "api", "suggestions"] => some suggestions
  | ["", "api", "query"] => some query
  | ["", "api", "query", "execute"] => some execution
  | ["", "api", "ontology", "reload"] => some ontology
  -- these two are no numbers of edges
  | ["", "api", "edges", "pointer"] => some pointer
  | ["", "api", "edges", "complete"] => some completion
  | ["", "api", "nodes", id] => if id = "" then none else some (node id)
  | ["", "api", "edges", id] => if id = "" then none else some (edge id)
  | ["", "api", "suggestions", index] => if index = "" then none else some (suggestion index)
  | ["", "api", "nodes", id, "content"] => some (nodeContent id)
  | ["", "api", "nodes", id, "position"] => some (nodePosition id)
  | ["", "api", "edges", id, "content"] => some (edgeContent id)
  | ["", "api", "edges", id, "optional"] => some (edgeOptional id)
  | ["", "api", "suggestions", index, "accept"] => some (acceptance index)
  | _ => none

def method : Resource → String
  | graph | suggestions | query => "GET"
  | mode | nodeContent _ | nodePosition _ | edgeContent _ | edgeOptional _ => "PUT"
  | node _ | edge _ | suggestion _ => "DELETE"
  | click | nodes | edges | pointer | completion | selection | acceptance _ | execution
  | ontology => "POST"

/-- True if a resource may be asked for with a method: its own one, and `HEAD` wherever `GET` is
    right. -/
def allows (resource : Resource) (method : String) : Bool :=
  method = resource.method || (method = "HEAD" && resource.method = "GET")

end Resource

/-! ## Numbers in paths -/

/-- A number below a bound, written in digits, perhaps behind a plus sign. -/
def parseNumber? (bound : Nat) (s : String) : Option Nat :=
  let digits := match s.toList with
    | '+' :: cs => cs
    | cs => cs
  if digits.isEmpty || !digits.all Char.isDigit then none
  else
    let n := Text.digitsValue 10 digits
    if n < bound then some n else none

/-- A percent-encoded number in a path. -/
def pathNumber (bound : Nat) (s : String) : Except Nat Nat :=
  match (Text.percentDecode? s).bind (parseNumber? bound) with
  | some n => .ok n
  | none => .error Status.badRequest

def pathNode (s : String) : Except Nat NodeId := (pathNumber 0x100000000 s).map NodeId.mk

def pathEdge (s : String) : Except Nat EdgeId := (pathNumber 0x100000000 s).map EdgeId.mk

/-- Numbers of suggestions have 64 bits. -/
def pathIndex (s : String) : Except Nat Nat := pathNumber 0x10000000000000000 s

/-! ## Bodies -/

/-- How many bytes a body may have. -/
def bodyLimit : Nat := 0x200000

/-- True if a request declares its body to be JSON. -/
def Request.declaresJson (r : Request) : Bool :=
  (r.contentType.bind Http.MediaType.ofText?).any Http.MediaType.isJson

def decodeBody {β : Type} (r : Request) (decode : Decoder β) : Except Nat β :=
  if !r.declaresJson then .error Status.unsupportedMediaType
  else if bodyLimit < r.body.utf8ByteSize then .error Status.contentTooLarge
  else
    match (Json.Document.read r.body).accept decode with
    | .ok b => .ok b
    | .error .malformed => .error Status.badRequest
    | .error .mismatch => .error Status.unprocessable

/-- A body with a position and nothing else. -/
def positionBody : Decoder (Point Float) := Point.ofJson

def contentBody : Decoder String := (Record.field "content" Json.Decode.text).decode

/-- A field that may be left out or `null`. -/
def optionalField {β : Type} (name : String) (decode : Decoder β) : Record (Option β) :=
  .fieldWithDefault name (Json.Decode.nullable decode) none

/-! ## Commands -/

/-- What a session does by itself. -/
inductive Action
  | showGraph
  | setMode (mode : Mode)
  | click (position : Point Float) (node : Option NodeId)
  | createNode (position : Point Float) (content : Option String) (kind : Option NodeKind)
  | setNodeContent (node : NodeId) (content : String)
  | setNodePosition (node : NodeId) (position : Point Float)
  | deleteNode (node : NodeId)
  | startEdge (subject : NodeId) (content : Option String)
  | followPointer (position : Point Float)
  | completeEdge (object : NodeId)
  | setEdgeContent (edge : EdgeId) (content : String)
  | setEdgeOptional (edge : EdgeId) (value : Bool)
  | deleteEdge (edge : EdgeId)
  | select (element : Option ElementRef)
  | listSuggestions
  | acceptSuggestion (index : Nat)
  | removeSuggestion (index : Nat)
  | showQuery
deriving Repr

/-- What a request asks for. -/
inductive Command
  | act (action : Action)
  /-- Asks the triple store. -/
  | executeQuery
  /-- Asks the triple store and, once that has answered, the prefix service. -/
  | reloadOntology
deriving Repr

namespace Action

def clickBody : Decoder Action :=
  ((Record.field "x" Json.Decode.float).and <| (Record.field "y" Json.Decode.float).and
    (optionalField "node" NodeId.ofJson)).map (fun (x, y, node) => click ⟨x, y⟩ node) |>.decode

def createNodeBody : Decoder Action :=
  ((Record.field "x" Json.Decode.float).and <| (Record.field "y" Json.Decode.float).and <|
    (optionalField "content" Json.Decode.text).and (optionalField "kind" NodeKind.ofJson)).map
    (fun (x, y, content, kind) => createNode ⟨x, y⟩ content kind) |>.decode

def startEdgeBody : Decoder Action :=
  ((Record.field "subject" NodeId.ofJson).and (optionalField "content" Json.Decode.text)).map
    (fun (subject, content) => startEdge subject content) |>.decode

end Action

namespace Command

/-- What a request for a resource asks for. Its path is judged before its body. -/
def ofResource (resource : Resource) (r : Request) : Except Nat Command :=
  match resource with
  | .graph => .ok (act .showGraph)
  | .mode => (act <| .setMode ·) <$> decodeBody r (Record.field "mode" Mode.ofJson).decode
  | .click => act <$> decodeBody r Action.clickBody
  | .nodes => act <$> decodeBody r Action.createNodeBody
  | .node id => (act <| .deleteNode ·) <$> pathNode id
  | .nodeContent id => do
    let node ← pathNode id
    (act <| .setNodeContent node ·) <$> decodeBody r contentBody
  | .nodePosition id => do
    let node ← pathNode id
    (act <| .setNodePosition node ·) <$> decodeBody r positionBody
  | .edges => act <$> decodeBody r Action.startEdgeBody
  | .pointer => (act <| .followPointer ·) <$> decodeBody r positionBody
  | .completion =>
    (act <| .completeEdge ·) <$> decodeBody r (Record.field "object" NodeId.ofJson).decode
  | .edge id => (act <| .deleteEdge ·) <$> pathEdge id
  | .edgeContent id => do
    let edge ← pathEdge id
    (act <| .setEdgeContent edge ·) <$> decodeBody r contentBody
  | .edgeOptional id => do
    let edge ← pathEdge id
    (act <| .setEdgeOptional edge ·) <$>
      decodeBody r (Record.field "optional" Json.Decode.bool).decode
  | .selection =>
    (act <| .select ·) <$> decodeBody r (optionalField "element" ElementRef.ofJson).decode
  | .suggestions => .ok (act .listSuggestions)
  | .suggestion index => (act <| .removeSuggestion ·) <$> pathIndex index
  | .acceptance index => (act <| .acceptSuggestion ·) <$> pathIndex index
  | .query => .ok (act .showQuery)
  | .execution => .ok executeQuery
  | .ontology => .ok reloadOntology

/-- What a request asks for, or the status with which it is refused. -/
def ofRequest (r : Request) : Except Nat Command :=
  match Resource.ofSegments? (Http.Target.segments r.target) with
  | none => .error Status.notFound
  | some resource =>
    if resource.allows r.method then ofResource resource r
    else .error Status.methodNotAllowed

end Command

end QueryCanvas.Server
