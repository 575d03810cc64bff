/-
  QueryCanvas.Diagram.Kind

  Kinds of nodes and edges, how they follow from a content, and the outline of
  a node of each kind.
-/

import QueryCanvas.Geometry.Shape
import QueryCanvas.Sparql.Content

namespace QueryCanvas

/-- What a node stands for in the query. -/
inductive NodeKind
  /-- A variable that is not part of the answers. -/
  | unboundVariable
  /-- A variable that is part of the answers. -/
  | selectedVariable
  /-- An IRI, prefixed or in full. -/
  | uri
  /-- A literal in its lexical form. -/
  | literal
  /-- A variable whose class was inferred from several ranges. -/
  | amalgam
  /-- A stub of which the user has not said yet what it is. -/
  | placeholder
deriving DecidableEq, Repr

/-- What an edge stands for in the query. -/
inductive EdgeKind
  /-- A known property. -/
  | boundProperty
  /-- A property variable. -/
  | unboundProperty
deriving DecidableEq, Repr

/-! ## Kinds from content -/

namespace NodeKind

def ofContent (content : String) : NodeKind :=
  if Sparql.isLiteral content then .literal
  else if Sparql.hasColon content then .uri
  else if Sparql.isNamedVariable content then .selectedVariable
  else if content = Sparql.anonymous then .unboundVariable
  else .uri

/-- True for the kinds that stand for a variable of the query. -/
def isVariable : NodeKind → Bool
  | unboundVariable | selectedVariable | amalgam | placeholder => true
  | uri | literal => false

/-- True for the kinds of node whose class may be inferred. -/
def isInferable : NodeKind → Bool
  | unboundVariable | amalgam => true
  | selectedVariable | uri | literal | placeholder => false

end NodeKind

def EdgeKind.ofContent (content : String) : EdgeKind :=
  if Sparql.isVariable content then .unboundProperty else .boundProperty

/-! ## Outlines -/

/-- The sizes in which nodes are drawn. -/
structure ShapeSizes (α : Type) where
  /-- Side of variables, IRIs and amalgams. -/
  nodeSize : α
  /-- Corner radius of variables and amalgams. -/
  variableCornerRadius : α
  uriCornerRadius : α
  literalWidth : α
  literalHeight : α
  /-- Diameter of placeholders. -/
  placeholderSize : α
  /-- Distance from a node to an object node that comes from a suggestion. -/
  suggestionOffset : α
deriving DecidableEq, Repr

/-- The outline of a node of a kind around `center`. -/
def NodeKind.shape {α : Type} [Scalar α] (kind : NodeKind) (center : Point α)
    (sizes : ShapeSizes α) : Shape α :=
  match kind with
  | unboundVariable | selectedVariable | amalgam =>
    .rounded center sizes.nodeSize sizes.nodeSize sizes.variableCornerRadius
  | uri => .rounded center sizes.nodeSize sizes.nodeSize sizes.uriCornerRadius
  | literal => .rectangle center sizes.literalWidth sizes.literalHeight
  | placeholder => .circle center sizes.placeholderSize

end QueryCanvas
