/-
  QueryCanvas.Service.Client

  The triple store and the prefix service behind the addresses in the settings.

  A query is sent as a form field and answered in the JSON form of query
  results. A term is asked for in the query of an address and answered by an
  object that tells whether the service knows the term, and what it stands for.
-/

import QueryCanvas.Http.Message
import QueryCanvas.Service
import QueryCanvas.Settings.Basic
import QueryCanvas.Wire.Results

namespace QueryCanvas.Client

open Json (Record)

/-! ## Requests -/

/-- The request with a query; there is none for an unusable address or media type. -/
def selectRequest? (e : EndpointSettings) (query : String) : Option Http.Request := do
  let address ← Http.Address.ofText? e.queryUrl
  let accept ← Http.headerValue? e.accept
  pure (.form address accept "query" query)

/-- The request with a term; there is none for an unusable address. -/
def termRequest? (url term : String) : Option Http.Request :=
  (Http.Address.ofText? url).map fun address => .get (address.withField "q" term)

/-! ## Answers -/

/-- The wording for an answer that is not in the expected form. -/
def unexpectedForm : String := "the answer is not in the expected form"

/-- The wording for a service that cannot be reached. -/
def unreachable : String := "no answer"

/-- The value in the content of a successful answer. -/
def readContent {β : Type} (decode : Json.Decoder β) (r : Http.Response) : Except ServiceError β :=
  if !r.isSuccess then .error (.status r.status r.message)
  else ((Json.Document.read r.content).accept decode).mapError fun _ =>
    .malformedAnswer unexpectedForm

/-- The answer of the triple store. -/
def readResults : Http.Response → Except ServiceError Results := readContent Results.ofJson

/-- What the prefix service says: whether it knows the term, and what it stands for. -/
def verdictRecord : Record (Bool × String) :=
  (Record.field "success" Json.Decode.bool).and (.fieldWithDefault "value" Json.Decode.text "")

/-- What the prefix service says about a term. -/
def readTerm (term : String) (r : Http.Response) : Except ServiceError String := do
  let (known, value) ← readContent verdictRecord.decode r
  if known then pure value else throw (.rejected term)

/-! ## Exchanges -/

variable {m : Type → Type} [Monad m]

/-- A way to send requests; without an answer the service was not reached. -/
abbrev Exchange (m : Type → Type) := Http.Request → m (Option Http.Response)

/-- Sends a request and reads the answer. -/
def ask {β : Type} (send : Exchange m) (request? : Option Http.Request)
    (read : Http.Response → Except ServiceError β) : m (Except ServiceError β) := do
  match request? with
  | none => pure (.error (.network unreachable))
  | some request =>
    match ← send request with
    | none => pure (.error (.network unreachable))
    | some response => pure (read response)

/-- Sends a query to the triple store. -/
def select (send : Exchange m) (e : EndpointSettings) (query : String) :
    m (Except ServiceError Results) := ask send (selectRequest? e query) readResults

/-- Asks the prefix service for the IRI of a prefixed name. -/
def expand (send : Exchange m) (p : PrefixServiceSettings) (prefixed : String) :
    m (Except ServiceError String) :=
  ask send (termRequest? p.expandUrl prefixed) (readTerm prefixed)

/-- Asks the prefix service for the prefixed name of an IRI. -/
def shorten (send : Exchange m) (p : PrefixServiceSettings) (iri : String) :
    m (Except ServiceError String) :=
  ask send (termRequest? p.shrinkUrl iri) (readTerm iri)

def services (send : Exchange m) (s : Settings) : Services m :=
  ⟨select send s.endpoint, shorten send s.prefixService⟩

end QueryCanvas.Client
