/-
  QueryCanvas.Suggestion.Basic

  Suggestions for extending the diagram: properties that may leave a node, and
  classes or datatypes that may stand at the end of an edge. They are found by
  the local name of what the element shows.

  A change of the selection asks for new suggestions only when element, content
  and kind all differ from what was seen before.
-/

import QueryCanvas.Diagram
import QueryCanvas.Ontology

namespace QueryCanvas

/-- The namespace of the datatypes. A range in it stands for literals. -/
def datatypeNamespace : String := "http://www.w3.org/2001/XMLSchema#"

/-- A property that may leave a node. -/
structure EdgeSuggestion where
  index : Nat
  subject : NodeId
  property : Term
  domain : Term
  range : Term
deriving DecidableEq, Repr

/-- A class or datatype that may stand at the object end of an edge. -/
structure NodeSuggestion where
  index : Nat
  edge : EdgeId
  kind : NodeKind
  cls : Term
deriving DecidableEq, Repr

/-- A suggestion of either sort. -/
inductive Suggestion
  | edge (suggestion : EdgeSuggestion)
  | node (suggestion : NodeSuggestion)
deriving DecidableEq, Repr

namespace Suggestion

/-- The number that identifies a suggestion. -/
def index : Suggestion → Nat
  | edge s => s.index
  | node s => s.index

/-- The text that is shown for a suggestion. -/
def label : Suggestion → String
  | edge s => s.property.qualifiedName
  | node s => s.cls.qualifiedName

def element : Suggestion → ElementRef
  | edge s => .node s.subject
  | node s => .edge s.edge

def terms : Suggestion → List Term
  | edge s => [s.property, s.domain, s.range]
  | node s => [s.cls]

/-- Takes up prefixes that have become known. -/
def refresh (s : Suggestion) (prefixes : PrefixTable) : Suggestion :=
  match s with
  | edge s =>
    edge { s with
      property := s.property.refresh prefixes
      domain := s.domain.refresh prefixes
      range := s.range.refresh prefixes }
  | node s => node { s with cls := s.cls.refresh prefixes }

end Suggestion

/-! ## Finding suggestions -/

/-- Values made from a list, each with its own number: `last` is the last number given away, and
    the answer says which one is now. -/
def numbered {β γ : Type} (last : Nat) (make : Nat → β → γ) : List β → Nat × List γ
  | [] => (last, [])
  | b :: rest =>
    let (now, made) := numbered (last + 1) make rest
    (now, make (last + 1) b :: made)

/-- Numbers are given in a row, the first being the one after the last that was given before. -/
theorem numbered_eq {β γ : Type} (last : Nat) (make : Nat → β → γ) (l : List β) :
    numbered last make l =
      (last + l.length, (l.zipIdx (last + 1)).map fun entry => make entry.2 entry.1) := by
  induction l generalizing last with
  | nil => rfl
  | cons b rest ih =>
    rw [numbered, ih, List.zipIdx_cons, List.map_cons, List.length_cons, Nat.add_assoc last 1,
      Nat.add_comm 1]

namespace Ontology

/-- The properties whose domain has the node's local name as label. A literal has none. -/
def suggestForNode (o : Ontology) (node : NodeId) (kind : NodeKind) (content : String)
    (last : Nat) : Nat × List EdgeSuggestion :=
  if kind = .literal then (last, [])
  else
    numbered last (fun index f => ⟨index, node, f.property, f.domain, f.range⟩)
      (o.factsForDomain (Sparql.localName content))

def kindOfRange (range : Term) : NodeKind :=
  if range.expansion = datatypeNamespace then .literal else .uri

/-- The ranges of the properties that have the edge's local name as label. -/
def suggestForEdge (o : Ontology) (edge : EdgeId) (content : String) (last : Nat) :
    Nat × List NodeSuggestion :=
  numbered last (fun index f => ⟨index, edge, kindOfRange f.range, f.range⟩)
    (o.factsForProperty (Sparql.localName content))

/-- The suggestions for a selected element. -/
def suggestFor (o : Ontology) (selection : Selection) (last : Nat) : Nat × List Suggestion :=
  match selection.element, selection.kind with
  | .node node, .node kind =>
    let (last, found) := o.suggestForNode node kind selection.content last
    (last, found.map .edge)
  | .edge edge, .edge _ =>
    let (last, found) := o.suggestForEdge edge selection.content last
    (last, found.map .node)
  | _, _ => (last, [])

end Ontology

/-! ## When suggestions are asked for -/

/-- Remembers the selection that was seen last. -/
structure Gate where
  previous : Option Selection
deriving DecidableEq, Repr

namespace Gate

/-- A gate that has seen nothing. -/
def new : Gate := ⟨none⟩

/-- True if the selection differs in every respect from the one seen last. -/
def opensFor (g : Gate) (selection : Selection) : Bool :=
  match g.previous with
  | none => true
  | some seen =>
    seen.element ≠ selection.element && seen.content ≠ selection.content &&
      seen.kind ≠ selection.kind

/-- Remembers a selection, and tells whether it asks for new suggestions. -/
def see (g : Gate) (selection : Selection) : Gate × Bool := (⟨some selection⟩, g.opensFor selection)

end Gate

end QueryCanvas
