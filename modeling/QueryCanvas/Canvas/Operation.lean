/-
  QueryCanvas.Canvas.Operation

  Clicks, and all operations of a canvas as data, so that runs of any length
  can be spoken about.
-/

import QueryCanvas.Canvas.Nodes
import QueryCanvas.Canvas.Edges

namespace QueryCanvas

variable {α : Type} [Scalar α]

/-! ## Clicks -/

/-- What a click at `position` does in the present mode. `hit` is the node under the pointer. -/
def Canvas.click (c : Canvas α) (position : Point α) (hit : Option NodeId) :
    Canvas α × Except CanvasError ClickOutcome :=
  match c.mode, hit with
  | .placeNode, none =>
    let (c, node) := c.createNode position .unboundVariable Sparql.anonymous
    (c, .ok (.nodeCreated node))
  | .drag, some node | .placeNode, some node =>
    let (c, selected) := c.select (.node node)
    (c, selected.map fun _ => .nodeSelected node)
  | .drawEdge, some node =>
    if c.completing then
      let (c, completion) := c.completeEdge node
      (c, completion.map fun
        | .completed edge => .edgeCompleted edge
        | .pending edge => .edgePending edge)
    else
      let (c, started) := c.startEdge node Sparql.anonymous
      (c, started.map fun
        | some edge => .edgeStarted edge
        | none => .ignored)
  | .drawEdge, none => (c.followPointer position, .ok .ignored)
  | .drag, none => (c.clearSelection, .ok .ignored)

/-! ## Operations as data -/

/-- An operation with its arguments. -/
inductive Operation (α : Type)
  | createNode (position : Point α) (kind : NodeKind) (content : String)
  | updateNode (node : NodeId) (content : String)
  | inferClass (node : NodeId) (label : String) (merged : Bool)
  | setClass (node : NodeId) (inferredClass : Option String)
  | assignNode (node : NodeId) (kind : NodeKind) (content : String) (inferredClass : Option String)
  | moveNode (node : NodeId) (position : Point α)
  | deleteNode (node : NodeId)
  | startEdge (subject : NodeId) (content : String)
  | followPointer (pointer : Point α)
  | completeEdge (destination : NodeId)
  | connect (subject object : NodeId) (content : String)
  | updateEdge (edge : EdgeId) (content : String)
  | setOptional (edge : EdgeId) (value : Bool)
  | deleteEdge (edge : EdgeId)
  | clear
  | select (element : ElementRef)
  | clearSelection
  | setMode (mode : Mode)
  | click (position : Point α) (hit : Option NodeId)
  | validate
deriving Repr

/-- What an operation answers if it is not refused. -/
inductive Reply
  | done
  | node (id : NodeId)
  | nodeKind (kind : NodeKind)
  | recorded (value : Bool)
  | removed (edges : List EdgeId)
  | started (edge : Option EdgeId)
  | completion (completion : Completion)
  | edge (id : EdgeId)
  | edgeKind (kind : EdgeKind)
  | selection (selection : Selection)
  | clicked (outcome : ClickOutcome)
deriving DecidableEq, Repr

def Canvas.perform (c : Canvas α) : Operation α → Canvas α × Except CanvasError Reply
  | .createNode position kind content =>
    let (c, id) := c.createNode position kind content
    (c, .ok (.node id))
  | .updateNode node content => (c.updateNode node content).map id (·.map .nodeKind)
  | .inferClass node label merged => (c.inferClass node label merged).map id (·.map .recorded)
  | .setClass node inferredClass => (c.setClass node inferredClass).map id (·.map fun _ => .done)
  | .assignNode node kind content inferredClass =>
    (c.assignNode node kind content inferredClass).map id (·.map fun _ => .done)
  | .moveNode node position => (c.moveNode node position).map id (·.map fun _ => .done)
  | .deleteNode node => (c.deleteNode node).map id (·.map .removed)
  | .startEdge subject content => (c.startEdge subject content).map id (·.map .started)
  | .followPointer pointer => (c.followPointer pointer, .ok .done)
  | .completeEdge destination => (c.completeEdge destination).map id (·.map .completion)
  | .connect subject object content => (c.connect subject object content).map id (·.map .edge)
  | .updateEdge edge content => (c.updateEdge edge content).map id (·.map .edgeKind)
  | .setOptional edge value => (c.setOptional edge value).map id (·.map fun _ => .done)
  | .deleteEdge edge => (c.deleteEdge edge).map id (·.map fun _ => .done)
  | .clear => (c.clear, .ok .done)
  | .select element => (c.select element).map id (·.map .selection)
  | .clearSelection => (c.clearSelection, .ok .done)
  | .setMode mode => (c.setMode mode, .ok .done)
  | .click position hit => (c.click position hit).map id (·.map .clicked)
  | .validate => (c, c.validate.map fun _ => .done)

/-- The canvas after a list of operations. -/
def Canvas.run (c : Canvas α) (operations : List (Operation α)) : Canvas α :=
  operations.foldl (fun c operation => (c.perform operation).1) c

end QueryCanvas
