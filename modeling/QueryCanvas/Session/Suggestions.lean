/-
  QueryCanvas.Session.Suggestions

  What a user can do with the suggestions of a session.
-/

import QueryCanvas.Session.Basic

namespace QueryCanvas

/-- What accepting a suggestion made or changed. -/
inductive Accepted
  /-- A new node at the end of a new edge. -/
  | edge (node : NodeId) (edge : EdgeId)
  /-- A node that took the suggested class or datatype. -/
  | node (node : NodeId)
deriving DecidableEq, Repr

namespace Session

/-- Looks again for suggestions for the selection. -/
def refreshSuggestions (s : Session) : Session :=
  match s.canvas.selection? with
  | some selection => s.suggestFor selection
  | none => { s with suggestions := [] }

/-- The suggestion with a number. -/
def suggestion? (s : Session) (index : Nat) : Option Suggestion :=
  s.suggestions.find? (·.index = index)

/-- Drops a suggestion. -/
def removeSuggestion (s : Session) (index : Nat) : Session × Except SessionError Suggestion :=
  match s.suggestion? index with
  | none => (s, .error (.suggestionNotFound index))
  | some suggestion =>
    ({ s with suggestions := s.suggestions.filter (·.index ≠ index) }, .ok suggestion)

/-- Puts a suggested property on the canvas, with an anonymous node of the suggested class at its
    end. -/
def placeEdge (s : Session) (suggestion : EdgeSuggestion) :
    Session × Except SessionError Accepted :=
  match s.canvas.node? suggestion.subject with
  | none => (s, .error (.canvas (.nodeNotFound suggestion.subject)))
  | some subject =>
    let position := subject.position.offset s.canvas.sizes.suggestionOffset Scalar.zero
    let (canvas, node) := s.canvas.createNode position .unboundVariable Sparql.anonymous
    match canvas.setClass node (some suggestion.range.label) with
    | (canvas, .error error) => ({ s with canvas := canvas }, .error (.canvas error))
    | (canvas, .ok ()) =>
      let content := suggestion.property.qualifiedName
      match canvas.connect suggestion.subject node content with
      | (canvas, .error error) => ({ s with canvas := canvas }, .error (.canvas error))
      | (canvas, .ok edge) =>
        -- the range is decided by the suggestion, so none is inferred for the new edge
        ({ s with canvas := canvas, inferred := s.inferred.insert edge content },
          .ok (.edge node edge))

/-- Makes the object of an edge the suggested class, or an empty literal of the suggested
    datatype. -/
def placeNode (s : Session) (suggestion : NodeSuggestion) :
    Session × Except SessionError Accepted :=
  match s.canvas.edge? suggestion.edge with
  | none => (s, .error (.canvas (.edgeNotFound suggestion.edge)))
  | some edge =>
    match edge.object.node? with
    | none => (s, .error (.incompleteEdge suggestion.edge))
    | some node =>
      let (canvas, assigned) :=
        if suggestion.kind = .literal then
          s.canvas.assignNode node .literal "" (some suggestion.cls.label)
        else s.canvas.assignNode node .uri suggestion.cls.qualifiedName none
      ({ s with canvas := canvas }, (assigned.mapError .canvas).map fun _ => .node node)

/-- Puts a suggestion on the canvas and drops it from the list. -/
def acceptSuggestion (s : Session) (index : Nat) : Session × Except SessionError Accepted :=
  match s.suggestion? index with
  | none => (s, .error (.suggestionNotFound index))
  | some suggestion =>
    let placed :=
      match suggestion with
      | .edge suggestion => s.placeEdge suggestion
      | .node suggestion => s.placeNode suggestion
    match placed with
    | (s, .error error) => (s, .error error)
    | (s, .ok accepted) =>
      ({ s with suggestions := s.suggestions.filter (·.index ≠ index) }.sync, .ok accepted)

/-- Empties the canvas and the list of suggestions. The ontology stays. -/
def clear (s : Session) : Session :=
  let cleared := { s with canvas := s.canvas.clear, inferred := .empty }.sync
  { cleared with suggestions := [], gate := .new }

end Session

end QueryCanvas
