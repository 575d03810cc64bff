/-
  QueryCanvas.Ontology

  The loaded facts, with indexes by the labels of domains and properties.

  Loading has two halves, so that a round trip over the network can lie between
  them: `beginLoad` hands out a ticket, `applyLoad` takes it back with the
  solutions. Only the latest ticket counts, and only until the next `load` or
  `clear`.
-/

import QueryCanvas.Ontology.Fact

namespace QueryCanvas

/-- Stands for a load that was begun. -/
structure LoadTicket where
  generation : Nat
deriving DecidableEq, Repr

/-- What came of a load. -/
structure LoadReport where
  loaded : Nat
  skipped : List MalformedBinding
deriving DecidableEq, Repr

/-- The facts of a session. -/
structure Ontology where
  facts : List Fact
  /-- Positions of the facts by the label of their domain. -/
  byDomain : Dict String (List Nat)
  /-- Positions of the facts by the label of their property. -/
  byProperty : Dict String (List Nat)
  /-- Generation of the latest load. -/
  generation : Nat
  loaded : Bool

namespace Ontology

/-- The ontology before anything was loaded. -/
def new : Ontology := ⟨[], .empty, .empty, 0, false⟩

/-! ## Looking -/

/-- The facts at the positions that an index has for a label. -/
def factsAt (o : Ontology) (index : Dict String (List Nat)) (label : String) : List Fact :=
  ((index.get? label).getD []).filterMap fun position => o.facts[position]?

/-- The facts whose domain has the label, in the order of loading. -/
def factsForDomain (o : Ontology) (label : String) : List Fact := o.factsAt o.byDomain label

/-- The facts whose property has the label, in the order of loading. -/
def factsForProperty (o : Ontology) (label : String) : List Fact := o.factsAt o.byProperty label

/-! ## Loading -/

/-- Forgets the facts. -/
def reset (o : Ontology) : Ontology :=
  { o with facts := [], byDomain := .empty, byProperty := .empty, loaded := false }

/-- Adds a position at the end of what an index has for a label. -/
def addPosition (index : Dict String (List Nat)) (label : String) (position : Nat) :
    Dict String (List Nat) :=
  index.insert label ((index.get? label).getD [] ++ [position])

def addFact (o : Ontology) (f : Fact) : Ontology :=
  let position := o.facts.length
  { o with
    facts := o.facts ++ [f]
    byDomain := addPosition o.byDomain f.domain.label position
    byProperty := addPosition o.byProperty f.property.label position }

/-- What has been read so far. -/
structure Loading where
  ontology : Ontology
  prefixes : PrefixTable
  skipped : List MalformedBinding

/-- Reads one solution: a fact is added, a solution that lacks a part is noted. -/
def Loading.step (l : Loading) (entry : Binding × Nat) : Loading :=
  match Fact.irisOf entry.1 with
  | .error role => { l with skipped := l.skipped ++ [⟨entry.2, role⟩] }
  | .ok iris =>
    let (prefixes, fact) := Fact.resolve iris l.prefixes
    { l with ontology := l.ontology.addFact fact, prefixes := prefixes }

/-- Replaces the facts by those in the solutions. -/
def index (o : Ontology) (bindings : List Binding) (prefixes : PrefixTable) :
    Ontology × PrefixTable × LoadReport :=
  -- positions count all solutions, also those that are skipped
  let done := bindings.zipIdx.foldl Loading.step ⟨o.reset, prefixes, []⟩
  ({ done.ontology with loaded := true }, done.prefixes,
    ⟨done.ontology.facts.length, done.skipped⟩)

/-- Begins a load. Tickets handed out before no longer count. -/
def beginLoad (o : Ontology) : Ontology × LoadTicket :=
  ({ o with generation := o.generation + 1 }, ⟨o.generation + 1⟩)

/-- Ends the load of a ticket with its solutions. A ticket that no longer counts changes nothing
    and has no report. -/
def applyLoad (o : Ontology) (ticket : LoadTicket) (bindings : List Binding)
    (prefixes : PrefixTable) : Ontology × PrefixTable × Option LoadReport :=
  if ticket.generation = o.generation then
    let (o, prefixes, report) := o.index bindings prefixes
    (o, prefixes, some report)
  else (o, prefixes, none)

/-- Begins a load and ends it at once. -/
def load (o : Ontology) (bindings : List Binding) (prefixes : PrefixTable) :
    Ontology × PrefixTable × LoadReport :=
  o.beginLoad.1.index bindings prefixes

/-- Forgets the facts. Loads that were begun no longer count. -/
def clear (o : Ontology) : Ontology :=
  { o.reset with generation := o.generation + 1 }

/-! ## Prefixes -/

/-- Takes up prefixes that have become known. -/
def refresh (o : Ontology) (prefixes : PrefixTable) : Ontology :=
  { o with facts := o.facts.map (·.refresh prefixes) }

/-- The number of terms that `refresh` changes. -/
def staleTerms (o : Ontology) (prefixes : PrefixTable) : Nat :=
  (o.facts.flatMap Fact.terms).countP (·.isStale prefixes)

end Ontology

end QueryCanvas
