/-
  QueryCanvas.Canvas.Nodes

  Operations on the nodes of a canvas.
-/

import QueryCanvas.Canvas.Basic

namespace QueryCanvas.Canvas

variable {α : Type} [Scalar α]

/-- Adds a node. Every node but a placeholder becomes the selection. -/
def createNode (c : Canvas α) (position : Point α) (kind : NodeKind) (content : String) :
    Canvas α × NodeId :=
  let id : NodeId := ⟨c.nextNode⟩
  let node : Node α := ⟨id, kind, content, position, kind.shape position c.sizes, false, none⟩
  let added := { c with
    diagram := { c.diagram with nodes := c.diagram.nodes ++ [node] }
    nextNode := c.nextNode + 1 }.announce
  if kind = .placeholder then (added, id) else ((added.select (.node id)).1, id)

/-- Gives a node kind, content and class; its outline and the edges at it follow. -/
def recast (c : Canvas α) (id : NodeId) (change : Node α → Node α) : Canvas α :=
  let reshape (n : Node α) : Node α :=
    let changed := change n
    { changed with shape := changed.kind.shape changed.position c.sizes }
  let changed := { c with diagram := (c.diagram.modifyNode id reshape).reanchor id }.announce
  changed.reannounce (.node id)

/-- Replaces the content of a node; the kind follows from it. -/
def updateNode (c : Canvas α) (id : NodeId) (content : String) :
    Canvas α × Except CanvasError NodeKind :=
  match c.node? id with
  | none => (c, .error (.nodeNotFound id))
  | some _ =>
    let kind := NodeKind.ofContent content
    (c.recast id fun n => { n with kind := kind, content := content }, .ok kind)

/-- Gives a node kind, content and class as they are. -/
def assignNode (c : Canvas α) (id : NodeId) (kind : NodeKind) (content : String)
    (inferredClass : Option String) : Canvas α × Except CanvasError Unit :=
  match c.node? id with
  | none => (c, .error (.nodeNotFound id))
  | some _ =>
    let change (n : Node α) : Node α :=
      { n with kind := kind, content := content, inferredClass := inferredClass }
    (c.recast id change, .ok ())

/-- Records the class inferred for an anonymous variable, which becomes an amalgam if several
    ranges were merged. A node of another kind is left alone, and the answer is false. -/
def inferClass (c : Canvas α) (id : NodeId) (label : String) (merged : Bool) :
    Canvas α × Except CanvasError Bool :=
  match c.node? id with
  | none => (c, .error (.nodeNotFound id))
  | some n =>
    if n.kind.isInferable then
      let kind : NodeKind := if merged then .amalgam else .unboundVariable
      let record (n : Node α) : Node α :=
        { n with
          inferredClass := some label
          kind := kind
          shape := kind.shape n.position c.sizes }
      ({ c with diagram := c.diagram.modifyNode id record }.announce, .ok true)
    else (c, .ok false)

def setClass (c : Canvas α) (id : NodeId) (inferredClass : Option String) :
    Canvas α × Except CanvasError Unit :=
  match c.node? id with
  | none => (c, .error (.nodeNotFound id))
  | some _ =>
    ({ c with
        diagram := c.diagram.modifyNode id fun n => { n with inferredClass := inferredClass }
      }.announce, .ok ())

/-- Moves a node; the edges at it follow. -/
def moveNode (c : Canvas α) (id : NodeId) (position : Point α) :
    Canvas α × Except CanvasError Unit :=
  match c.node? id with
  | none => (c, .error (.nodeNotFound id))
  | some _ =>
    let move (n : Node α) : Node α :=
      { n with position := position, shape := n.shape.movedTo position }
    ({ c with diagram := (c.diagram.modifyNode id move).reanchor id }.announce, .ok ())

/-- Removes a node with every edge at it. The answer lists the removed edges. -/
def deleteNode (c : Canvas α) (id : NodeId) : Canvas α × Except CanvasError (List EdgeId) :=
  match c.node? id with
  | none => (c, .error (.nodeNotFound id))
  | some _ =>
    let removed := (c.diagram.edges.filter (·.touches id)).map Edge.id
    let edges := c.diagram.edges.filter (!·.touches id)
    let shrunk := { c with
      diagram := ⟨c.diagram.nodes.filter (·.id ≠ id), edges⟩
      completing := edges.any (!·.complete) }
    -- the selection goes before subscribers see the smaller diagram
    let selectionGone : Bool :=
      match c.selected with
      | some (.node n) => decide (n = id)
      | some (.edge e) => removed.contains e
      | none => false
    let cleared := if selectionGone then shrunk.clearSelection else shrunk
    (cleared.announce, .ok removed)

end QueryCanvas.Canvas
