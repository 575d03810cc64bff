/-
  QueryCanvas.Sparql.Select

  SELECT queries, their text, and how a diagram becomes one.

  Each element of a diagram has a text in the query. Nodes and edges that show
  a named variable are the outputs; complete edges are the patterns, edges that
  are still being drawn are left out.
-/

import QueryCanvas.Diagram
import QueryCanvas.Prefix.Table

namespace QueryCanvas

namespace Sparql

/-! ## Queries and their text -/

/-- A line of the query body: subject, property and object. -/
structure Pattern where
  subject : String
  property : String
  object : String
  isOptional : Bool
deriving DecidableEq, Repr

/-- The parts of a SELECT query. -/
structure Select where
  outputs : List String
  patterns : List Pattern
deriving DecidableEq, Repr

/-- A pattern as a line of the query. -/
def Pattern.text (p : Pattern) : String :=
  let triple := p.subject ++ " " ++ p.property ++ " " ++ p.object ++ " ."
  if p.isOptional then "  OPTIONAL \x7b " ++ triple ++ " \x7d\n" else "  " ++ triple ++ "\n"

/-- The text of a query: outputs, patterns, and an empty line where an order would stand. -/
def Select.text (q : Select) : String :=
  "SELECT " ++ String.join (q.outputs.map (· ++ " ")) ++ "\nWHERE \x7b\n"
    ++ String.join (q.patterns.map Pattern.text) ++ "\x7d\n" ++ "\n"

/-! ## Texts of elements -/

/-- The name of a variable: the content, or role and number where it is anonymous. -/
def variableName (content role : String) (index : Nat) : String :=
  if content = anonymous then "?" ++ role ++ toString index else content

/-- True for a text between angle brackets. -/
def isBracketed (content : String) : Bool :=
  content.toList.head? = some '<' && content.toList.getLast? = some '>'

/-- An IRI in angle brackets. A known prefix is written out; anything else is taken as it is. -/
def renderIri (content : String) (prefixes : PrefixTable) : String :=
  if isBracketed content then content
  else
    let expanded := do
      let (short, localPart) ← Text.cutAtFirst? ':' content.toList
      let expansion ← prefixes.expansionOf? (String.ofList short)
      pure (expansion ++ String.ofList localPart)
    "<" ++ expanded.getD content ++ ">"

/-- What an element contributes to a query. -/
structure Fragment where
  text : String
  selected : Bool
deriving DecidableEq, Repr

variable {α : Type}

def nodeFragment (n : Node α) (prefixes : PrefixTable) : Fragment :=
  match n.kind with
  | .unboundVariable | .selectedVariable =>
    ⟨variableName n.content "node" n.id.index, n.isSelected⟩
  | .uri => ⟨renderIri n.content prefixes, false⟩
  | .literal => ⟨n.content, false⟩
  | .amalgam | .placeholder => ⟨"?node" ++ toString n.id.index, false⟩

def edgeFragment (e : Edge α) (prefixes : PrefixTable) : Fragment :=
  match e.kind with
  | .unboundProperty => ⟨variableName e.content "edge" e.id.index, e.isSelected⟩
  | .boundProperty => ⟨renderIri e.content prefixes, false⟩

/-! ## Compiling a diagram -/

/-- Why a diagram is no query. -/
inductive CompileError
  /-- The query would have no outputs. -/
  | noOutputs
  /-- An edge is anchored to a node that does not exist. -/
  | danglingEdge (edge : EdgeId) (node : NodeId)
deriving DecidableEq, Repr

/-- The wording of an error. -/
def CompileError.message : CompileError → String
  | noOutputs =>
    "No output selected: name at least one node or property variable (for example ?x) to " ++
      "include it in the results"
  | danglingEdge edge node =>
    "Edge " ++ toString edge.index ++ " references missing node " ++ toString node.index

/-- The fragments of a diagram by identity. -/
structure Fragments where
  nodes : Dict NodeId Fragment
  edges : Dict EdgeId Fragment

/-- The fragments of all elements. Of two elements with one identity the later stays. -/
def Fragments.of (d : Diagram α) (prefixes : PrefixTable) : Fragments :=
  ⟨.ofPairs (d.nodes.map fun n => (n.id, nodeFragment n prefixes)),
    .ofPairs (d.edges.map fun e => (e.id, edgeFragment e prefixes))⟩

/-- Adds a text unless it is present. -/
def addOutput (outputs : List String) (text : String) : List String :=
  if outputs.contains text then outputs else outputs ++ [text]

/-- The distinct texts of the selected elements, nodes before edges. -/
def outputs (d : Diagram α) (fragments : Fragments) : List String :=
  let all := d.nodes.filterMap (fun n => fragments.nodes.get? n.id)
    ++ d.edges.filterMap (fun e => fragments.edges.get? e.id)
  ((all.filter (·.selected)).map Fragment.text).foldl addOutput []

/-- The text at an end of an edge. A free end is reported as node zero. -/
def endText (fragments : Fragments) (edge : EdgeId) (node : Option NodeId) :
    Except CompileError String :=
  match node.bind fragments.nodes.get? with
  | some fragment => .ok fragment.text
  | none => .error (.danglingEdge edge (node.getD ⟨0⟩))

def edgePattern (fragments : Fragments) (e : Edge α) : Except CompileError Pattern := do
  let subject ← endText fragments e.id e.subject.node?
  let object ← endText fragments e.id e.object.node?
  let property := ((fragments.edges.get? e.id).map Fragment.text).getD anonymous
  pure ⟨subject, property, object, e.isOptional⟩

/-- The query that a diagram shows. -/
def select (d : Diagram α) (prefixes : PrefixTable) : Except CompileError Select :=
  let fragments := Fragments.of d prefixes
  -- a missing output is reported before a dangling edge
  let outputs := outputs d fragments
  if outputs.isEmpty then .error .noOutputs
  else do
    let patterns ← (d.edges.filter (·.complete)).mapM (edgePattern fragments)
    pure ⟨outputs, patterns⟩

end Sparql

/-- The text of the query that a diagram shows. -/
def Diagram.compile {α : Type} (d : Diagram α) (prefixes : PrefixTable) :
    Except Sparql.CompileError String :=
  (Sparql.select d prefixes).map Sparql.Select.text

end QueryCanvas
