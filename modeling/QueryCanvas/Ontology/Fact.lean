/-
  QueryCanvas.Ontology.Fact

  Facts of the ontology, and how they are read from the solutions of the query
  that fetches them.
-/

import QueryCanvas.Ontology.Term
import QueryCanvas.Service

namespace QueryCanvas

/-- A property leads from things of a class to things of another. -/
structure Fact where
  property : Term
  domain : Term
  range : Term
deriving DecidableEq, Repr

/-- The parts of a fact, in the order in which they are looked for. -/
inductive Role
  | property
  | domain
  | range
deriving DecidableEq, Repr

/-- The variable of the ontology query that holds a part. -/
def Role.variableName : Role → String
  | property => "s"
  | domain => "domain"
  | range => "range"

/-- The query that fetches properties with their domains and ranges: those stated directly and
    those in class restrictions. -/
def ontologyQuery : String :=
  String.join <| List.map (· ++ "\n") [
    "PREFIX rdfs: <http://www.w3.org/2000/01/rdf-schema#>",
    "PREFIX owl: <http://www.w3.org/2002/07/owl#>",
    "SELECT DISTINCT ?s ?domain ?range",
    "WHERE \x7b",
    "  \x7b",
    "    ?s rdfs:domain ?domain .",
    "    OPTIONAL \x7b ?s rdfs:range ?range . \x7d",
    "  \x7d",
    "  UNION",
    "  \x7b",
    "    ?domain rdfs:subClassOf ?restriction .",
    "    ?restriction owl:onProperty ?s .",
    "    OPTIONAL \x7b ?restriction owl:onClass|owl:onDataRange|owl:someValuesFrom ?range . \x7d",
    "    FILTER (?s != owl:topObjectProperty)",
    "  \x7d",
    "\x7d"]

/-- A solution from which no fact can be read, and the first part that it lacks. -/
structure MalformedBinding where
  index : Nat
  missing : Role
deriving DecidableEq, Repr

/-- The wording for a skipped solution. -/
def MalformedBinding.message (m : MalformedBinding) : String :=
  "Binding " ++ toString m.index ++ " is missing ?" ++ m.missing.variableName

namespace Fact

/-- The IRI in a part of a solution. An empty text counts as none. -/
def iriAt? (b : Binding) (role : Role) : Option String :=
  let iri := Binding.text b role.variableName
  if iri = "" then none else some iri

/-- The IRIs of property, domain and range, or the first part that is missing. -/
def irisOf (b : Binding) : Except Role (String × String × String) :=
  match iriAt? b .property, iriAt? b .domain, iriAt? b .range with
  | none, _, _ => .error .property
  | _, none, _ => .error .domain
  | _, _, none => .error .range
  | some property, some domain, some range => .ok (property, domain, range)

/-- The fact that relates three IRIs. -/
def resolve (iris : String × String × String) (prefixes : PrefixTable) : PrefixTable × Fact :=
  let (prefixes, property) := Term.resolve iris.1 prefixes
  let (prefixes, domain) := Term.resolve iris.2.1 prefixes
  let (prefixes, range) := Term.resolve iris.2.2 prefixes
  (prefixes, ⟨property, domain, range⟩)

def terms (f : Fact) : List Term := [f.property, f.domain, f.range]

/-- Takes up prefixes that have become known. -/
def refresh (f : Fact) (prefixes : PrefixTable) : Fact :=
  ⟨f.property.refresh prefixes, f.domain.refresh prefixes, f.range.refresh prefixes⟩

end Fact

end QueryCanvas
