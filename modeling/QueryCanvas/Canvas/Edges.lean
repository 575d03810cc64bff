/-
  QueryCanvas.Canvas.Edges

  Operations on the edges of a canvas.
-/

import QueryCanvas.Canvas.Basic

namespace QueryCanvas.Canvas

variable {α : Type} [Scalar α]

def appendEdge (c : Canvas α) (e : Edge α) : Canvas α :=
  { c with
    diagram := { c.diagram with edges := c.diagram.edges ++ [e] }
    nextEdge := c.nextEdge + 1 }

/-- Starts drawing an edge at a node. Its free end lies one unit off, so that the edge has a
    length. While another edge is being drawn nothing happens. -/
def startEdge (c : Canvas α) (subject : NodeId) (content : String) :
    Canvas α × Except CanvasError (Option EdgeId) :=
  match c.node? subject with
  | none => (c, .error (.nodeNotFound subject))
  | some n =>
    if c.diagram.incompleteEdge?.isSome then (c, .ok none)
    else
      let id : EdgeId := ⟨c.nextEdge⟩
      let edge : Edge α :=
        ⟨id, .ofContent content, content, .anchored subject n.position,
          .free (n.position.offset Scalar.one Scalar.one), false, false⟩
      ({ c.appendEdge edge with completing := true }.announce, .ok (some id))

/-- Moves the free end of the edge being drawn. -/
def followPointer (c : Canvas α) (pointer : Point α) : Canvas α :=
  if c.completing then
    match c.diagram.incompleteEdge? with
    | none => c
    | some e =>
      let diagram := c.diagram.modifyEdge e.id fun e => { e with object := .free pointer }
      { c with diagram := diagram }.announce
  else c

/-- Ends the edge being drawn at a node. It stays as it is while the segment between the centers
    does not enter the outline of the node. -/
def completeEdge (c : Canvas α) (destination : NodeId) :
    Canvas α × Except CanvasError Completion :=
  match c.diagram.incompleteEdge? with
  | none => (c, .error .noIncompleteEdge)
  | some e =>
    match e.subject.node? with
    | none => (c, .error .noIncompleteEdge)
    | some subjectId =>
      match c.node? subjectId with
      | none => (c, .error (.danglingEdge e.id subjectId))
      | some subject =>
        match c.node? destination with
        | none => (c, .error (.nodeNotFound destination))
        | some object =>
          match anchorPoints? subject object with
          -- the object end stays free, so that the pointer can still move it
          | none => (c, .ok (.pending e.id))
          | some (s, o) =>
            let finish (e : Edge α) : Edge α :=
              { e with
                subject := .anchored subjectId s
                object := .anchored destination o
                complete := true }
            ({ c with
                diagram := c.diagram.modifyEdge e.id finish
                completing := false }.announce, .ok (.completed e.id))

/-- Adds a complete edge between two nodes. Nodes that overlap are joined at their centers. -/
def connect (c : Canvas α) (subject object : NodeId) (content : String) :
    Canvas α × Except CanvasError EdgeId :=
  match c.node? subject with
  | none => (c, .error (.nodeNotFound subject))
  | some s =>
    match c.node? object with
    | none => (c, .error (.nodeNotFound object))
    | some o =>
      let ends := (anchorPoints? s o).getD (s.position, o.position)
      let id : EdgeId := ⟨c.nextEdge⟩
      let edge : Edge α :=
        ⟨id, .ofContent content, content, .anchored subject ends.1, .anchored object ends.2,
          false, true⟩
      ((c.appendEdge edge).announce, .ok id)

/-- Replaces the content of an edge; the kind follows from it. -/
def updateEdge (c : Canvas α) (id : EdgeId) (content : String) :
    Canvas α × Except CanvasError EdgeKind :=
  match c.edge? id with
  | none => (c, .error (.edgeNotFound id))
  | some _ =>
    let kind := EdgeKind.ofContent content
    let changed := { c with
      diagram := c.diagram.modifyEdge id fun e => { e with kind := kind, content := content } }
    (changed.announce.reannounce (.edge id), .ok kind)

/-- Marks an edge together with the nodes at its ends as optional or not. -/
def setOptional (c : Canvas α) (id : EdgeId) (value : Bool) :
    Canvas α × Except CanvasError Unit :=
  match c.edge? id with
  | none => (c, .error (.edgeNotFound id))
  | some e =>
    let ends := [e.subject.node?, e.object.node?].filterMap fun node => node
    match ends.find? fun node => (c.node? node).isNone with
    | some node => (c, .error (.danglingEdge id node))
    | none =>
      let marked := c.diagram.modifyEdge id fun e => { e with isOptional := value }
      let nodes := marked.nodes.map fun n =>
        if ends.contains n.id then { n with isOptional := value } else n
      ({ c with diagram := { marked with nodes := nodes } }.announce, .ok ())

def deleteEdge (c : Canvas α) (id : EdgeId) : Canvas α × Except CanvasError Unit :=
  match c.edge? id with
  | none => (c, .error (.edgeNotFound id))
  | some e =>
    let shrunk := { c with
      diagram := { c.diagram with edges := c.diagram.edges.filter (·.id ≠ id) }
      completing := e.complete && c.completing }
    let cleared := if c.selected = some (.edge id) then shrunk.clearSelection else shrunk
    (cleared.announce, .ok ())

/-- Removes everything. Identities are not handed out again. -/
def clear (c : Canvas α) : Canvas α :=
  { c with diagram := .empty, completing := false }.clearSelection.announce

end QueryCanvas.Canvas
