/-
  QueryCanvas.Server

  The server for a front end: one session, changed and shown by requests.
-/

import QueryCanvas.Server.Request
import QueryCanvas.Session.Network
import QueryCanvas.Wire.Results
import QueryCanvas.Wire.Diagram

namespace QueryCanvas.Server

/-- The answer to a request. -/
structure Response where
  status : Nat
  body : Option Json

namespace Response

/-- An answer with a value. -/
def value (j : Json) : Response := ⟨Status.ok, some j⟩

/-- An answer that says only that all went well. -/
def done : Response := ⟨Status.noContent, none⟩

/-- The status for an error. What the client can mend is its fault; what the services get wrong is
    theirs. -/
def statusOf : SessionError → Nat
  | .canvas (.nodeNotFound _) | .canvas (.edgeNotFound _) => Status.notFound
  | .canvas .noIncompleteEdge => Status.conflict
  | .canvas (.danglingEdge _ _) | .canvas (.tooManyIncompleteEdges _) => Status.internalError
  | .compile .noOutputs => Status.unprocessable
  | .compile (.danglingEdge _ _) => Status.internalError
  | .service _ | .loadFailed _ => Status.badGateway
  | .suggestionNotFound _ => Status.notFound
  | .incompleteEdge _ | .superseded => Status.conflict

/-- An answer that tells an error. -/
def refusal (error : SessionError) : Response :=
  ⟨statusOf error, some (.object [("error", .text error.message)])⟩

/-- The answer for an outcome. -/
def ofOutcome {β : Type} (toResponse : β → Response) : Except SessionError β → Response
  | .ok b => toResponse b
  | .error error => refusal error

end Response

/-! ## Values in answers -/

/-- A value or `null`. -/
def nullable {β : Type} (toJson : β → Json) (b : Option β) : Json := (b.map toJson).getD .null

/-- The state of the editor. -/
def graphJson (c : Canvas Float) : Json :=
  .object [("mode", c.mode.toJson), ("selection", nullable Selection.toJson c.selection?),
    ("edge_completing", .bool c.completing),
    ("nodes", .array (c.diagram.nodes.map Node.toJson)),
    ("edges", .array (c.diagram.edges.map Edge.toJson))]

def suggestionsJson (s : Session) : Json := .array (s.suggestions.map Suggestion.toJson)

def reportJson (report : LoadReport) : Json :=
  .object [("loaded", .natural report.loaded),
    ("skipped", .array (report.skipped.map fun m => .text m.message))]

def completionJson : Completion → Json
  | .completed edge => .object [("edge", edge.toJson), ("complete", .bool true)]
  | .pending edge => .object [("edge", edge.toJson), ("complete", .bool false)]

/-! ## Carrying out commands -/

namespace Action

/-- Changes the canvas and answers with the outcome. -/
def change {β : Type} (s : Session) (operation : Canvas Float → Canvas Float × Except CanvasError β)
    (toResponse : β → Response) : Session × Response :=
  let (s, outcome) := s.edit operation
  (s, .ofOutcome toResponse (outcome.mapError .canvas))

/-- Carries out an action. -/
def perform (s : Session) : Action → Session × Response
  | showGraph => (s, .value (graphJson s.canvas))
  | setMode mode => ((s.edit fun c => (c.setMode mode, ())).1, .done)
  | click position node =>
    change s (·.click position node) fun outcome => .value outcome.toJson
  | createNode position content kind =>
    let content := content.getD Sparql.anonymous
    let kind := kind.getD (.ofContent content)
    let (s, node) := s.edit (·.createNode position kind content)
    (s, ⟨Status.created, some (.object [("node", node.toJson), ("kind", kind.toJson)])⟩)
  | setNodeContent node content =>
    change s (·.updateNode node content) fun kind => .value (.object [("kind", kind.toJson)])
  | setNodePosition node position => change s (·.moveNode node position) fun _ => .done
  | deleteNode node =>
    change s (·.deleteNode node) fun edges =>
      .value (.object [("node", node.toJson), ("edges", .array (edges.map EdgeId.toJson))])
  | startEdge subject content =>
    change s (·.startEdge subject (content.getD Sparql.anonymous)) fun edge =>
      .value (.object [("edge", nullable EdgeId.toJson edge)])
  | followPointer position => ((s.edit fun c => (c.followPointer position, ())).1, .done)
  | completeEdge object =>
    change s (·.completeEdge object) fun completion => .value (completionJson completion)
  | setEdgeContent edge content =>
    change s (·.updateEdge edge content) fun kind => .value kind.toJson
  | setEdgeOptional edge value => change s (·.setOptional edge value) fun _ => .done
  | deleteEdge edge => change s (·.deleteEdge edge) fun _ => .done
  | select (some element) =>
    let (s, outcome) := s.edit (·.select element)
    (s, .ofOutcome (fun _ => .value (suggestionsJson s)) (outcome.mapError .canvas))
  | select none =>
    let (s, _) := s.edit fun c => (c.clearSelection, ())
    (s, .value (suggestionsJson s))
  | listSuggestions => (s, .value (suggestionsJson s))
  | acceptSuggestion index =>
    let (s, outcome) := s.acceptSuggestion index
    (s, .ofOutcome (fun accepted => .value accepted.toJson) outcome)
  | removeSuggestion index =>
    let (s, outcome) := s.removeSuggestion index
    (s, .ofOutcome (fun suggestion => .value suggestion.toJson) outcome)
  | showQuery =>
    (s, .ofOutcome (fun query => .value (.object [("query", .text query)])) s.compile)

end Action

namespace Command

variable {m : Type → Type} [Monad m]

/-- Carries out a command. -/
def execute (services : Services m) (s : Session) (command : Command) : m (Session × Response) :=
  match command with
  | act action => pure (action.perform s)
  | executeQuery => do
    let outcome ← s.execute services
    pure (s, .ofOutcome (fun table => .value table.toJson) outcome)
  | reloadOntology => do
    let (s, outcome) ← s.reloadOntology services
    pure (s, .ofOutcome (fun report => .value (reportJson report)) outcome)

/-- True if prefixes are to be resolved once the answer is out. -/
def leavesPrefixes : Command → Bool
  | reloadOntology => true
  | _ => false

end Command

def Response.withoutBody (r : Response) : Response := { r with body := none }

variable {m : Type → Type} [Monad m]

/-- Answers a request that asks for something. After a reload the prefixes of the new facts are
    resolved. -/
def respond (services : Services m) (s : Session) (r : Request) : m (Session × Response) :=
  match Command.ofRequest r with
  | .error status => pure (s, ⟨status, none⟩)
  | .ok command => do
    let (s, response) ← command.execute services s
    if command.leavesPrefixes && response.status = Status.ok then
      let (s, _) ← s.resolvePrefixes services
      pure (s, response)
    else pure (s, response)

/-- Answers a request. A front end that only asks what it may do is welcome everywhere, and `HEAD`
    leaves the body out. -/
def serve (services : Services m) (s : Session) (r : Request) : m (Session × Response) :=
  if r.method = "OPTIONS" then pure (s, ⟨Status.ok, none⟩)
  else do
    let (s, response) ← respond services s r
    pure (s, if r.method = "HEAD" then response.withoutBody else response)

end QueryCanvas.Server
