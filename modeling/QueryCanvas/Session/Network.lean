/-
  QueryCanvas.Session.Network

  Loading the ontology, resolving prefixes and running the query.

  Each exchange with a service has three steps, so that the session can be used
  while a service takes its time: beginning it, fetching the answer without the
  session, and finishing it with the answer. An answer that was overtaken is
  dropped when it is to be finished.
-/

import QueryCanvas.Service
import QueryCanvas.Session.Suggestions

namespace QueryCanvas

/-- Requests paired with the answers of the prefix service. -/
abbrev PrefixAnswers := List (PrefixRequest × Except ServiceError String)

namespace Session

/-! ## Loading the ontology -/

def beginLoad (s : Session) : Session × LoadTicket :=
  let (ontology, ticket) := s.ontology.beginLoad
  ({ s with ontology := ontology }, ticket)

/-- Finishes a load with the answer of the triple store. Prefixes of the new terms are queued. -/
def finishLoad (s : Session) (ticket : LoadTicket) (fetched : Except ServiceError Results) :
    Session × Except SessionError LoadReport :=
  match fetched with
  | .error error => (s, .error (.loadFailed error))
  | .ok results =>
    match s.ontology.applyLoad ticket results.bindings s.prefixes with
    | (_, _, none) => (s, .error .superseded)
    | (ontology, prefixes, some report) =>
      let loaded := { s with ontology := ontology, prefixes := prefixes, inferred := .empty }
      (loaded.sync.refreshSuggestions, .ok report)

/-! ## Resolving prefixes -/

/-- Hands out the queued prefix requests. -/
def beginPrefixes (s : Session) : Session × List PrefixRequest :=
  let (prefixes, requests) := s.prefixes.takeRequests
  ({ s with prefixes := prefixes }, requests)

/-- Records answers one after the other. The number says how many were still wanted. -/
def recordAnswers (t : PrefixTable) (answers : PrefixAnswers) : PrefixTable × Nat :=
  answers.foldl (fun (t, applied) (request, answer) =>
    let (t, wanted) := t.complete request answer
    (t, if wanted then applied + 1 else applied)) (t, 0)

/-- Records answers and shows the new prefixes in facts and suggestions. -/
def finishPrefixes (s : Session) (answers : PrefixAnswers) : Session × Nat :=
  let (prefixes, applied) := recordAnswers s.prefixes answers
  ({ s with
      prefixes := prefixes
      ontology := s.ontology.refresh prefixes
      suggestions := s.suggestions.map (·.refresh prefixes) }, applied)

/-! ## With services at hand -/

variable {m : Type → Type} [Monad m]

/-- Asks the prefix service for every request, in order. -/
def fetchPrefixes (services : Services m) (requests : List PrefixRequest) : m PrefixAnswers :=
  requests.mapM fun request => do
    let answer ← services.shorten request.term
    pure (request, answer)

/-- Answers the queued prefix requests. The number says how many answers were still wanted. -/
def resolvePrefixes (services : Services m) (s : Session) : m (Session × Nat) := do
  let (s, requests) := s.beginPrefixes
  if requests.isEmpty then pure (s, 0)
  else
    let answers ← fetchPrefixes services requests
    pure (s.finishPrefixes answers)

/-- Begins, fetches and finishes a load, without resolving prefixes. -/
def reloadOntology (services : Services m) (s : Session) :
    m (Session × Except SessionError LoadReport) := do
  let (s, ticket) := s.beginLoad
  let fetched ← services.select ontologyQuery
  pure (s.finishLoad ticket fetched)

/-- Loads the ontology and, if that worked, resolves its prefixes. -/
def loadOntology (services : Services m) (s : Session) :
    m (Session × Except SessionError LoadReport) := do
  match ← s.reloadOntology services with
  | (s, .error error) => pure (s, .error error)
  | (s, .ok report) =>
    let (s, _) ← s.resolvePrefixes services
    pure (s, .ok report)

/-- Runs a query and tabulates the answer. -/
def runQuery (services : Services m) (query : String) : m (Except SessionError Table) := do
  let answer ← services.select query
  pure ((answer.map Results.table).mapError .service)

/-- Compiles the canvas and runs the query. -/
def execute (services : Services m) (s : Session) : m (Except SessionError Table) :=
  match s.compile with
  | .error error => pure (.error error)
  | .ok query => runQuery services query

end Session

end QueryCanvas
