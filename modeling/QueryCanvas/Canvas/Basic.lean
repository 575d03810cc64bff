/-
  QueryCanvas.Canvas.Basic

  The editable state of a diagram: the diagram itself, what the user is doing
  with it, and the feed that tells others about changes.

  Operations return the canvas after them together with their answer, also
  when the answer is an error, so that it can be said of each of them what a
  refused call leaves behind.
-/

import QueryCanvas.Diagram

namespace QueryCanvas

/-! ## Modes, outcomes, errors, events -/

/-- What a click on the canvas does. -/
inductive Mode
  /-- A click on a node selects it. -/
  | drag
  /-- A click beside the nodes places a new variable. -/
  | placeNode
  /-- A click on a node starts an edge there, or ends the one being drawn. -/
  | drawEdge
deriving DecidableEq, Repr

def Mode.displayName : Mode → String
  | drag => "Drag"
  | placeNode => "Place node"
  | drawEdge => "Draw edge"

/-- What trying to end an edge led to. -/
inductive Completion
  /-- The edge is anchored at both ends. -/
  | completed (edge : EdgeId)
  /-- The edge does not meet the outline of its object yet. -/
  | pending (edge : EdgeId)
deriving DecidableEq, Repr

inductive ClickOutcome
  | nodeCreated (node : NodeId)
  | nodeSelected (node : NodeId)
  | edgeStarted (edge : EdgeId)
  | edgeCompleted (edge : EdgeId)
  | edgePending (edge : EdgeId)
  | ignored
deriving DecidableEq, Repr

/-- Why an operation on the canvas was refused. -/
inductive CanvasError
  | nodeNotFound (node : NodeId)
  | edgeNotFound (edge : EdgeId)
  /-- An edge should be ended while none is being drawn. -/
  | noIncompleteEdge
  /-- An edge is anchored to a node that does not exist. -/
  | danglingEdge (edge : EdgeId) (node : NodeId)
  /-- More than one edge is being drawn. -/
  | tooManyIncompleteEdges (count : Nat)
deriving DecidableEq, Repr

/-- The wording of an error. -/
def CanvasError.message : CanvasError → String
  | nodeNotFound node => "Node not found: " ++ toString node.index
  | edgeNotFound edge => "Edge not found: " ++ toString edge.index
  | noIncompleteEdge => "No edge is being drawn"
  | danglingEdge edge node =>
    "Edge " ++ toString edge.index ++ " references missing node " ++ toString node.index
  | tooManyIncompleteEdges count =>
    toString count ++ " edges are incomplete; at most one may be drawn at a time"

/-- What subscribers are told. -/
inductive Event (α : Type)
  /-- The diagram was changed and now looks like this. -/
  | diagramChanged (diagram : Diagram α)
  /-- An element became the selection, or the selection shows something else. -/
  | selectionChanged (selection : Selection)
  | selectionCleared
deriving DecidableEq, Repr

/-! ## The canvas -/

/-- A diagram being edited. -/
structure Canvas (α : Type) where
  diagram : Diagram α
  /-- The number of the next node. It stands for a 32-bit counter, and is what the counter holds as
      long as fewer than 2 ^ 32 - 1 nodes have been created. -/
  nextNode : Nat
  /-- The number of the next edge, likewise a 32-bit counter as long as fewer than 2 ^ 32 - 1 edges
      have been created. -/
  nextEdge : Nat
  /-- True while an edge is being drawn. -/
  completing : Bool
  mode : Mode
  selected : Option ElementRef
  sizes : ShapeSizes α
  /-- Events that the subscriber has not read yet; nothing without a subscriber. -/
  feed : Option (List (Event α))
deriving Repr

namespace Canvas

variable {α : Type}

/-- The canvas at the start of a session. -/
def new (sizes : ShapeSizes α) : Canvas α :=
  ⟨.empty, 1, 1, false, .drag, none, sizes, none⟩

/-! ## Looking -/

def node? (c : Canvas α) (id : NodeId) : Option (Node α) := c.diagram.node? id

def edge? (c : Canvas α) (id : EdgeId) : Option (Edge α) := c.diagram.edge? id

/-- The selection with its present content and kind. -/
def selection? (c : Canvas α) : Option Selection := c.selected.bind c.diagram.describe?

/-- The first end that is anchored to a missing node, edges in order, subjects first. -/
def danglingEnd? (d : Diagram α) : Option (EdgeId × NodeId) :=
  d.edges.findSome? fun e =>
    ([e.subject, e.object].filterMap Endpoint.node?).findSome? fun node =>
      if (d.node? node).isNone then some (e.id, node) else none

/-- Checks that ends are anchored to existing nodes and that at most one edge is incomplete. -/
def validate (c : Canvas α) : Except CanvasError Unit :=
  match danglingEnd? c.diagram with
  | some (edge, node) => .error (.danglingEdge edge node)
  | none =>
    let incomplete := (c.diagram.edges.filter (!·.complete)).length
    if 1 < incomplete then .error (.tooManyIncompleteEdges incomplete) else .ok ()

/-! ## The feed -/

/-- Starts a fresh feed. The feed of an earlier subscriber ends. -/
def subscribe (c : Canvas α) : Canvas α := { c with feed := some [] }

/-- Tells the subscriber, if there is one. -/
def emit (c : Canvas α) (event : Event α) : Canvas α :=
  { c with feed := c.feed.map (· ++ [event]) }

/-- The events since the feed was last read, and the canvas with an empty feed. -/
def takeEvents (c : Canvas α) : List (Event α) × Canvas α :=
  (c.feed.getD [], { c with feed := c.feed.map fun _ => [] })

/-- Tells the subscriber what the diagram looks like now. -/
def announce (c : Canvas α) : Canvas α := c.emit (.diagramChanged c.diagram)

/-- Tells the subscriber what the selected element shows now, if `element` is selected. -/
def reannounce (c : Canvas α) (element : ElementRef) : Canvas α :=
  if c.selected = some element then
    match c.diagram.describe? element with
    | some selection => c.emit (.selectionChanged selection)
    | none => c
  else c

/-! ## Mode and selection -/

/-- Switches the mode. Nothing else ever changes it. -/
def setMode (c : Canvas α) (mode : Mode) : Canvas α := { c with mode := mode }

def missing : ElementRef → CanvasError
  | .node id => .nodeNotFound id
  | .edge id => .edgeNotFound id

def select (c : Canvas α) (element : ElementRef) : Canvas α × Except CanvasError Selection :=
  match c.diagram.describe? element with
  | none => (c, .error (missing element))
  | some selection =>
    ({ c with selected := some element }.emit (.selectionChanged selection), .ok selection)

/-- Leaves nothing selected. -/
def clearSelection (c : Canvas α) : Canvas α :=
  if c.selected.isSome then { c with selected := none }.emit .selectionCleared else c

end Canvas

end QueryCanvas
