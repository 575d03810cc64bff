/-
  QueryCanvas.Service

  What services answer. A triple store answers SELECT queries with the variables
  and, for each solution, the terms bound to them. For display, answers are
  flattened into rows: a solution gives each of its values away once, so that the
  later cells are empty where a variable is listed again. A prefix service
  shortens IRIs. How the two are reached is left to the monad in which they
  answer.
-/

import QueryCanvas.Dict

namespace QueryCanvas

/-! ## Answers -/

/-- An RDF term in a solution. -/
structure BoundTerm where
  /-- `uri`, `literal` or `bnode`. -/
  termType : String
  value : String
  datatype : Option String
  language : Option String
deriving DecidableEq, Repr

/-- One solution: the terms of the variables that it binds. -/
abbrev Binding := Dict String BoundTerm

/-- The answer to a query. -/
structure Results where
  /-- The variables that were asked for. -/
  columns : List String
  bindings : List Binding

/-- The answer without variables and solutions. -/
def Results.empty : Results := ⟨[], []⟩

/-- The text bound to a variable, empty if there is none. -/
def Binding.text (b : Binding) (name : String) : String :=
  ((b.get? name).map BoundTerm.value).getD ""

/-! ## Tables -/

/-- Columns and rows of text. -/
structure Table where
  columns : List String
  /-- One row per solution, one cell per column. -/
  rows : List (List String)
deriving DecidableEq, Repr

/-- The cells of one solution. Each cell takes its value out of the solution. -/
def Binding.row (b : Binding) : List String → List String
  | [] => []
  | name :: rest => b.text name :: Binding.row (b.erase name) rest

/-- The table of an answer. -/
def Results.table (r : Results) : Table :=
  ⟨r.columns, r.bindings.map fun b => b.row r.columns⟩

/-! ## Services -/

/-- Why a service gave no usable answer. -/
inductive ServiceError
  | requestFailed (message : String)
  /-- The service answered with an error status. -/
  | status (code : Nat) (message : String)
  /-- The answer is not in the expected form. -/
  | malformedAnswer (message : String)
  | network (message : String)
  /-- The prefix service does not know the term. -/
  | rejected (term : String)
deriving DecidableEq, Repr

/-- The wording of an error. -/
def ServiceError.message : ServiceError → String
  | requestFailed message => "Request failed: " ++ message
  | status code message => "Service returned error: " ++ toString code ++ " - " ++ message
  | malformedAnswer message => "Failed to parse response: " ++ message
  | network message => "Network error: " ++ message
  | rejected term => "Prefix service could not resolve " ++ term

/-- A triple store and a prefix service. -/
structure Services (m : Type → Type) where
  /-- Answers a SELECT query. -/
  select : String → m (Except ServiceError Results)
  /-- Shortens an IRI to the form `prefix:a`. -/
  shorten : String → m (Except ServiceError String)

end QueryCanvas
