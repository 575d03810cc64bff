/-
  QueryCanvas.Diagram

  Nodes and edges, and the diagram that they make up: everything that a query
  is compiled from.
-/

import QueryCanvas.Diagram.Kind
import QueryCanvas.Geometry.Crossing

namespace QueryCanvas

/-! ## Identity -/

structure NodeId where
  index : Nat
deriving DecidableEq, Repr

structure EdgeId where
  index : Nat
deriving DecidableEq, Repr

/-- A node or an edge. -/
inductive ElementRef
  | node (id : NodeId)
  | edge (id : EdgeId)
deriving DecidableEq, Repr

/-- The kind of a node or of an edge. -/
inductive ElementKind
  | node (kind : NodeKind)
  | edge (kind : EdgeKind)
deriving DecidableEq, Repr

/-- An element together with what it showed when it was looked at. -/
structure Selection where
  element : ElementRef
  content : String
  kind : ElementKind
deriving DecidableEq, Repr

/-! ## Nodes -/

/-- A vertex of the diagram. -/
structure Node (α : Type) where
  id : NodeId
  kind : NodeKind
  content : String
  /-- Center of the outline. -/
  position : Point α
  shape : Shape α
  isOptional : Bool
  /-- Label of the class that the ontology suggests for the node. -/
  inferredClass : Option String
deriving DecidableEq, Repr

/-- True if the node is part of the answers. -/
def Node.isSelected {α : Type} (n : Node α) : Bool := n.kind = .selectedVariable

/-! ## Edges -/

/-- One end of an edge. -/
inductive Endpoint (α : Type)
  /-- At the outline of a node. -/
  | anchored (node : NodeId) (point : Point α)
  /-- At the pointer. -/
  | free (point : Point α)
deriving DecidableEq, Repr

namespace Endpoint

variable {α : Type}

/-- The node that the end is anchored to. -/
def node? : Endpoint α → Option NodeId
  | anchored node _ => some node
  | free _ => none

def point : Endpoint α → Point α
  | anchored _ point => point
  | free point => point

/-- Moves an anchored end to another point of its node; a free end stays. -/
def reanchored (e : Endpoint α) (point : Point α) : Endpoint α :=
  match e with
  | anchored node _ => anchored node point
  | free p => free p

end Endpoint

/-- A property that leads from one node to another. -/
structure Edge (α : Type) where
  id : EdgeId
  kind : EdgeKind
  content : String
  subject : Endpoint α
  object : Endpoint α
  isOptional : Bool
  /-- False while the object end follows the pointer. -/
  complete : Bool
deriving DecidableEq, Repr

namespace Edge

variable {α : Type}

/-- True if the edge is part of the answers: a property variable with a name. -/
def isSelected (e : Edge α) : Bool :=
  e.kind = .unboundProperty && 1 < e.content.utf8ByteSize

/-- True if an end is anchored to the node. -/
def touches (e : Edge α) (node : NodeId) : Bool :=
  e.subject.node? = some node || e.object.node? = some node

end Edge

/-! ## Diagrams -/

/-- Nodes and edges in the order in which they were made. -/
structure Diagram (α : Type) where
  nodes : List (Node α)
  edges : List (Edge α)
deriving DecidableEq, Repr

namespace Diagram

variable {α : Type}

/-- The diagram without elements. -/
def empty : Diagram α := ⟨[], []⟩

/-- The first node with the given identity. -/
def node? (d : Diagram α) (id : NodeId) : Option (Node α) := d.nodes.find? (·.id = id)

/-- The first edge with the given identity. -/
def edge? (d : Diagram α) (id : EdgeId) : Option (Edge α) := d.edges.find? (·.id = id)

/-- The first edge that is still being drawn. -/
def incompleteEdge? (d : Diagram α) : Option (Edge α) := d.edges.find? (!·.complete)

/-- What an element shows now. -/
def describe? (d : Diagram α) (element : ElementRef) : Option Selection :=
  match element with
  | .node id => (d.node? id).map fun n => ⟨element, n.content, .node n.kind⟩
  | .edge id => (d.edge? id).map fun e => ⟨element, e.content, .edge e.kind⟩

/-- Changes the node with the given identity. -/
def modifyNode (d : Diagram α) (id : NodeId) (f : Node α → Node α) : Diagram α :=
  { d with nodes := d.nodes.map fun n => if n.id = id then f n else n }

/-- Changes the edge with the given identity. -/
def modifyEdge (d : Diagram α) (id : EdgeId) (f : Edge α → Edge α) : Diagram α :=
  { d with edges := d.edges.map fun e => if e.id = id then f e else e }

end Diagram

/-! ## Anchors -/

variable {α : Type} [Scalar α]

/-- The ends of an edge between two nodes: where the segment between their centers leaves the
    subject and where it enters the object. A subject that the segment does not leave is
    anchored at its center; without an entry into the object there are no ends. -/
def anchorPoints? (subject object : Node α) : Option (Point α × Point α) :=
  (object.shape.firstCrossing? subject.position object.position).map fun entry =>
    ((subject.shape.firstCrossing? object.position subject.position).getD subject.position, entry)

/-- The edge with its ends where they belong after the node `id` has changed. A complete edge
    keeps its ends if none are found; an edge being drawn starts at the center of its subject. -/
def Diagram.reanchoredEdge (d : Diagram α) (id : NodeId) (e : Edge α) : Edge α :=
  if e.complete then
    if e.touches id then
      let ends := do
        let subject ← d.node? (← e.subject.node?)
        let object ← d.node? (← e.object.node?)
        anchorPoints? subject object
      match ends with
      | some (s, o) => { e with subject := e.subject.reanchored s, object := e.object.reanchored o }
      | none => e
    else e
  else
    match d.node? id with
    | some n =>
      if e.subject.node? = some id then { e with subject := e.subject.reanchored n.position } else e
    | none => e

/-- Puts the ends of all edges at the node `id` where they belong. -/
def Diagram.reanchor (d : Diagram α) (id : NodeId) : Diagram α :=
  { d with edges := d.edges.map (d.reanchoredEdge id) }

end QueryCanvas
