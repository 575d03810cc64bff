/-
  QueryCanvas.Session.Basic

  An editing session: a canvas together with the ontology, the prefixes and the
  suggestions for the selection.

  All changes of the canvas go through `edit`. After the change the session
  catches up with it (`sync`): it infers the classes of anonymous objects, reads
  the events of the canvas, and drops what refers to removed elements.
-/

import QueryCanvas.Canvas.Operation
import QueryCanvas.Scalar.Binary64
import QueryCanvas.Sparql.Select
import QueryCanvas.Suggestion.Basic
import QueryCanvas.Suggestion.Range

namespace QueryCanvas

/-! ## Errors -/

/-- Why a session refused a call. -/
inductive SessionError
  | canvas (error : CanvasError)
  | compile (error : Sparql.CompileError)
  /-- A query could not be run. -/
  | service (error : ServiceError)
  /-- The ontology could not be fetched. -/
  | loadFailed (error : ServiceError)
  | suggestionNotFound (index : Nat)
  /-- The edge of a node suggestion has no object. -/
  | incompleteEdge (edge : EdgeId)
  /-- A later load of the ontology was begun. -/
  | superseded
deriving DecidableEq, Repr

/-- The wording of an error. -/
def SessionError.message : SessionError → String
  | canvas error => "Graph error: " ++ error.message
  | compile error => error.message
  | service error => "Request failed: " ++ error.message
  | loadFailed error => "Ontology load failed: " ++ error.message
  | suggestionNotFound index => "Suggestion not found: " ++ toString index
  | incompleteEdge edge => "Edge " ++ toString edge.index ++ " has no object node yet"
  | superseded => "Ontology load was superseded by a newer one"

/-! ## Sessions -/

/-- The state of a session. -/
structure Session where
  canvas : Canvas Float
  ontology : Ontology
  prefixes : PrefixTable
  gate : Gate
  /-- The last number given to a suggestion. -/
  lastIndex : Nat
  suggestions : List Suggestion
  /-- The content of each edge for which its range was last inferred. -/
  inferred : Dict EdgeId String

namespace Session

/-- A session before anything has happened. It listens to its canvas. -/
def new (base : String) (sizes : ShapeSizes Float) : Session :=
  ⟨(Canvas.new sizes).subscribe, .new, .new base, .new, 0, [], .empty⟩

/-! ## Range inference -/

/-- The object whose class an edge decides, if it is due: the edge is complete, shows a property
    for which no range was inferred yet, and its object may be given a class. -/
def inferenceTarget? (s : Session) (e : Edge Float) : Option (EdgeId × String × NodeId) :=
  if e.complete && e.kind = .boundProperty && s.inferred.get? e.id ≠ some e.content then
    match e.object.node? with
    | none => none
    | some object =>
      match s.canvas.node? object with
      | none => none
      | some n => if n.kind.isInferable then some (e.id, e.content, object) else none
  else none

/-- Gives the object of an edge the class that the ontology knows for it. -/
def inferRange (s : Session) (target : EdgeId × String × NodeId) : Session :=
  let (edge, content, object) := target
  let inference := RangeInference.infer content s.ontology
  let canvas :=
    match inference.classLabel? with
    | some label => (s.canvas.inferClass object label inference.isAmalgam).1
    | none => s.canvas
  { s with canvas := canvas, inferred := s.inferred.insert edge content }

def inferRanges (s : Session) : Session :=
  (s.canvas.diagram.edges.filterMap s.inferenceTarget?).foldl inferRange s

/-! ## Events -/

/-- Looks for suggestions for what a selection shows. -/
def suggestFor (s : Session) (selection : Selection) : Session :=
  let (last, found) := s.ontology.suggestFor selection s.lastIndex
  { s with lastIndex := last, suggestions := found }

/-- Takes note of an event of the canvas. -/
def handleEvent (s : Session) (event : Event Float) : Session :=
  match event with
  | .selectionChanged selection =>
    let (gate, opens) := s.gate.see selection
    let s := { s with gate := gate }
    if opens then s.suggestFor selection else s
  | .diagramChanged _ | .selectionCleared => s

def readEvents (s : Session) : Session :=
  let (events, canvas) := s.canvas.takeEvents
  events.foldl handleEvent { s with canvas := canvas }

/-- True if the element of a suggestion exists. -/
def isCurrent (s : Session) (suggestion : Suggestion) : Bool :=
  match suggestion.element with
  | .node id => (s.canvas.node? id).isSome
  | .edge id => (s.canvas.edge? id).isSome

/-- Drops what refers to removed elements. -/
def prune (s : Session) : Session :=
  { s with
    suggestions := s.suggestions.filter s.isCurrent
    inferred := s.inferred.filterKeys fun edge => (s.canvas.edge? edge).isSome }

/-- Catches up with the canvas. -/
def sync (s : Session) : Session := s.inferRanges.readEvents.prune

/-- Changes the canvas and catches up with it. -/
def edit {β : Type} (s : Session) (change : Canvas Float → Canvas Float × β) : Session × β :=
  let (canvas, answer) := change s.canvas
  ({ s with canvas := canvas }.sync, answer)

def perform (s : Session) (operation : Operation Float) : Session × Except CanvasError Reply :=
  s.edit (·.perform operation)

/-! ## The query -/

/-- The text of the query that the canvas shows. -/
def compile (s : Session) : Except SessionError String :=
  (s.canvas.diagram.compile s.prefixes).mapError .compile

end Session

end QueryCanvas
