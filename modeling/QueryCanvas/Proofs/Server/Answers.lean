/-
  QueryCanvas.Proofs.Server.Answers

  What the server answers, and what its answers say about the session behind it.

  A request is rejected before the session is looked at, or it is a command.
  A command works, or it fails for a reason that the client can mend or that a
  service is to blame for; an internal error never comes of it. What fails has
  changed nothing: an operation that is refused leaves the canvas as it is, and
  a session that has caught up with its canvas has nothing else to do
  (`Session.CaughtUp`).
-/

import QueryCanvas.Proofs.Session.CaughtUp
import QueryCanvas.Proofs.Sparql.Select
import QueryCanvas.Server

namespace QueryCanvas

/-- The errors that tell of a broken session, not of a mistaken request. -/
def SessionError.isFault : SessionError → Bool
  | .canvas error => error.isFault
  | .compile (.danglingEdge _ _) => true
  | .compile .noOutputs | .service _ | .loadFailed _ | .suggestionNotFound _
  | .incompleteEdge _ | .superseded => false

namespace Server

/-! ## Statuses -/

/-- The statuses of answers to what worked. -/
def successes : List Nat := [Status.ok, Status.created, Status.noContent]

/-- The statuses of answers to commands that failed. -/
def failures : List Nat :=
  [Status.notFound, Status.conflict, Status.unprocessable, Status.badGateway]

/-- The statuses of answers to requests that are no commands. -/
def rejections : List Nat :=
  [Status.badRequest, Status.notFound, Status.methodNotAllowed, Status.contentTooLarge,
    Status.unsupportedMediaType, Status.unprocessable]

/-- What is judged of a request is in order, or it is rejected with one of the statuses for that. -/
def Judged {β : Type} (judgement : Except Nat β) : Prop :=
  ∀ status, judgement = .error status → status ∈ rejections

namespace Judged

variable {β γ : Type}

theorem ok (b : β) : Judged (.ok b) := by
  intro status h
  cases h

theorem map {judgement : Except Nat β} (h : Judged judgement) (f : β → γ) :
    Judged (f <$> judgement) :=
  fun status hstatus => h status (Canvas.map_eq_error_iff.1 hstatus)

theorem bind {judgement : Except Nat β} (h : Judged judgement) {next : β → Except Nat γ}
    (then_ : ∀ b, Judged (next b)) : Judged (judgement >>= next) := by
  cases judgement with
  | error status => exact fun _ hstatus => h _ (by cases hstatus; rfl)
  | ok b => exact then_ b

theorem pathNumber (bound : Nat) (s : String) : Judged (Server.pathNumber bound s) := by
  intro status h
  unfold Server.pathNumber at h
  split at h
  · cases h
  · cases h
    decide

theorem decodeBody (r : Request) (decode : Json.Decoder β) :
    Judged (Server.decodeBody r decode) := by
  intro status h
  unfold Server.decodeBody at h
  split at h
  · cases h
    decide
  split at h
  · cases h
    decide
  split at h
  · cases h
  · cases h
    decide
  · cases h
    decide

/-- Numbers in the path are judged before the body. -/
theorem ofResource (resource : Resource) (r : Request) :
    Judged (Command.ofResource resource r) := by
  cases resource with
  | graph | suggestions | query | execution | ontology => exact ok _
  | mode | click | nodes | edges | pointer | completion | selection => exact (decodeBody r _).map _
  | node id | edge id => exact ((pathNumber _ id).map _).map _
  | suggestion index | acceptance index => exact (pathNumber _ index).map _
  | nodeContent id | nodePosition id | edgeContent id | edgeOptional id =>
    exact ((pathNumber _ id).map _).bind fun _ => (decodeBody r _).map _

theorem ofRequest (r : Request) : Judged (Command.ofRequest r) := by
  unfold Command.ofRequest
  split
  · intro status h
    cases h
    decide
  · next resource _ =>
    split
    · exact ofResource resource r
    · intro status h
      cases h
      decide

end Judged

/-- An error that tells of no broken session has one of the statuses for failed commands. -/
theorem statusOf_mem_failures {error : SessionError} (sound : error.isFault = false) :
    Response.statusOf error ∈ failures := by
  have hfound : Status.notFound ∈ failures := by decide
  have hconflict : Status.conflict ∈ failures := by decide
  have hunprocessable : Status.unprocessable ∈ failures := by decide
  have hgateway : Status.badGateway ∈ failures := by decide
  cases error with
  | canvas error =>
    cases error with
    | nodeNotFound node | edgeNotFound edge => exact hfound
    | noIncompleteEdge => exact hconflict
    | danglingEdge edge node => cases sound
    | tooManyIncompleteEdges count => cases sound
  | compile error =>
    cases error with
    | noOutputs => exact hunprocessable
    | danglingEdge edge node => cases sound
  | service error | loadFailed error => exact hgateway
  | suggestionNotFound index => exact hfound
  | incompleteEdge edge | superseded => exact hconflict

/-! ## Commands -/

/-- Nothing that a front end can see has changed. -/
structure Untouched (s s' : Session) : Prop where
  canvas : s'.canvas = s.canvas
  suggestions : s'.suggestions = s.suggestions
  facts : s'.ontology.facts = s.ontology.facts
  prefixes : s'.prefixes = s.prefixes

theorem Untouched.refl (s : Session) : Untouched s s := ⟨rfl, rfl, rfl, rfl⟩

theorem Untouched.trans {a b c : Session} (hab : Untouched a b) (hbc : Untouched b c) :
    Untouched a c where
  canvas := hbc.canvas.trans hab.canvas
  suggestions := hbc.suggestions.trans hab.suggestions
  facts := hbc.facts.trans hab.facts
  prefixes := hbc.prefixes.trans hab.prefixes

/-- What was asked for worked, or it failed with one of the statuses for that and changed
    nothing. -/
inductive Handled (errors : List Nat) (s s' : Session) (response : Response) : Prop
  | worked (status : response.status ∈ successes)
  | failed (status : response.status ∈ errors) (untouched : Untouched s s')

theorem handled_ofOutcome {β : Type} {s s' : Session} {outcome : Except SessionError β}
    {toResponse : β → Response} (works : ∀ b, (toResponse b).status ∈ successes)
    (fails : ∀ error, outcome = .error error → error.isFault = false ∧ Untouched s s') :
    Handled failures s s' (.ofOutcome toResponse outcome) := by
  cases outcome with
  | ok b => exact .worked (works b)
  | error error =>
    obtain ⟨sound, untouched⟩ := fails error rfl
    exact .failed (statusOf_mem_failures sound) untouched

/-- The sessions that the server can have, whatever it is asked and whatever the services answer. -/
abbrev Served (base : String) (sizes : ShapeSizes Float) : Session → Prop :=
  Session.Reachable (fun _ => True) (fun _ => True) base sizes

/-- What comes of a request is another session that the server can have, and an answer that
    accounts for it. -/
structure Accounts (base : String) (sizes : ShapeSizes Float) (errors : List Nat) (s s' : Session)
    (response : Response) : Prop where
  served : Served base sizes s'
  handled : Handled errors s s' response

variable {base : String} {sizes : ShapeSizes Float} {s : Session}

/-- A change of the canvas by an operation leads to another session that the server can have. -/
theorem served_edit {β : Type} (served : Served base sizes s)
    {change : Canvas Float → Canvas Float × β} (operation : Operation Float)
    (performs : (change s.canvas).1 = (s.canvas.perform operation).1) :
    Served base sizes (s.edit change).1 := by
  have hrun : (change s.canvas).1 = s.canvas.run [operation] := performs
  exact .edit served change (fun _ _ => trivial) hrun

/-- An operation that is refused leaves the session as it is, and the diagram is never to blame. -/
theorem accounts_change {β : Type} (served : Served base sizes s)
    {change : Canvas Float → Canvas Float × Except CanvasError β} (operation : Operation Float)
    (reply : β → Reply) {toResponse : β → Response}
    (performs : s.canvas.perform operation = (change s.canvas).map id (·.map reply))
    (works : ∀ b, (toResponse b).status ∈ successes) :
    Accounts base sizes failures s (Action.change s change toResponse).1
      (Action.change s change toResponse).2 := by
  have wf := served.wellFormed
  have hperformed : (change s.canvas).1 = (s.canvas.perform operation).1 := by
    rw [performs]
    rfl
  refine ⟨served_edit served operation hperformed, ?_⟩
  refine handled_ofOutcome works fun error herror => ?_
  cases houtcome : (change s.canvas).2 with
  | ok b =>
    rw [houtcome] at herror
    cases herror
  | error refusal =>
    rw [houtcome] at herror
    cases herror
    have hrefused : (s.canvas.perform operation).2 = .error refusal := by
      rw [performs]
      show (change s.canvas).2.map reply = .error refusal
      rw [houtcome]
      rfl
    have hrefusal := (wf.perform_error_iff operation).1 hrefused
    have hkept : (change s.canvas).1 = s.canvas := by
      rw [hperformed, wf.perform_of_refusal hrefusal]
    have hsame : (Action.change s change toResponse).1 = s := served.caughtUp.edit_eq hkept
    refine ⟨Canvas.isFault_of_refusal? hrefusal, ?_⟩
    rw [hsame]
    exact .refl s

theorem handled_acceptSuggestion (served : Served base sizes s) (index : Nat)
    {toResponse : Accepted → Response} (works : ∀ b, (toResponse b).status ∈ successes) :
    Handled failures s (s.acceptSuggestion index).1
      (.ofOutcome toResponse (s.acceptSuggestion index).2) := by
  obtain ⟨haccept, -⟩ := served.steady.accept served.wellFormed index
  refine handled_ofOutcome works fun error herror => ?_
  generalize s.acceptSuggestion index = outcome at haccept herror
  cases haccept with
  | unknown missing =>
    cases herror
    exact ⟨rfl, .refl s⟩
  | incomplete found there drawn =>
    cases herror
    exact ⟨rfl, .refl s⟩
  | node found there ends placed => cases herror
  | edge found placed => cases herror

theorem handled_removeSuggestion (index : Nat) {toResponse : Suggestion → Response}
    (works : ∀ b, (toResponse b).status ∈ successes) :
    Handled failures s (s.removeSuggestion index).1
      (.ofOutcome toResponse (s.removeSuggestion index).2) := by
  refine handled_ofOutcome works fun error herror => ?_
  cases hfound : s.suggestion? index with
  | none =>
    have hmissing : s.removeSuggestion index = (s, .error (.suggestionNotFound index)) := by
      simp only [Session.removeSuggestion, hfound]
    rw [hmissing] at herror ⊢
    cases herror
    exact ⟨rfl, .refl s⟩
  | some suggestion =>
    simp only [Session.removeSuggestion, hfound] at herror
    cases herror

/-- A diagram without outputs is the only one that is no query. -/
theorem isFault_of_compile (served : Served base sizes s) {error : SessionError}
    (refused : s.compile = .error error) : error.isFault = false := by
  unfold Session.compile at refused
  cases hcompile : s.canvas.diagram.compile s.prefixes with
  | ok text =>
    rw [hcompile] at refused
    cases refused
  | error reason =>
    rw [hcompile] at refused
    cases refused
    rw [Sparql.eq_noOutputs_of_compile served.wellFormed hcompile]
    rfl

theorem ok_mem : Status.ok ∈ successes := by decide

theorem created_mem : Status.created ∈ successes := by decide

theorem noContent_mem : Status.noContent ∈ successes := by decide

/-- Carrying out an action works, or it fails and changes nothing. -/
theorem accounts_perform (served : Served base sizes s) (action : Action) :
    Accounts base sizes failures s (action.perform s).1 (action.perform s).2 := by
  cases action with
  | showGraph | listSuggestions => exact ⟨served, .worked ok_mem⟩
  | setMode mode =>
    show Accounts base sizes failures s (s.edit fun c => (c.setMode mode, ())).1 _
    exact ⟨served_edit served (.setMode mode) rfl, .worked noContent_mem⟩
  | click position node =>
    exact accounts_change served (.click position node) .clicked rfl fun _ => ok_mem
  | createNode position content kind =>
    let content := content.getD Sparql.anonymous
    let kind := kind.getD (.ofContent content)
    show Accounts base sizes failures s (s.edit (·.createNode position kind content)).1 _
    exact ⟨served_edit served (.createNode position kind content) rfl, .worked created_mem⟩
  | setNodeContent node content =>
    exact accounts_change served (.updateNode node content) .nodeKind rfl fun _ => ok_mem
  | setNodePosition node position =>
    exact accounts_change served (.moveNode node position) (fun _ => .done) rfl
      fun _ => noContent_mem
  | deleteNode node =>
    exact accounts_change served (.deleteNode node) .removed rfl fun _ => ok_mem
  | startEdge subject content =>
    exact accounts_change served (.startEdge subject _) .started rfl fun _ => ok_mem
  | followPointer position =>
    show Accounts base sizes failures s (s.edit fun c => (c.followPointer position, ())).1 _
    exact ⟨served_edit served (.followPointer position) rfl, .worked noContent_mem⟩
  | completeEdge object =>
    exact accounts_change served (.completeEdge object) .completion rfl fun _ => ok_mem
  | setEdgeContent edge content =>
    exact accounts_change served (.updateEdge edge content) .edgeKind rfl fun _ => ok_mem
  | setEdgeOptional edge value =>
    exact accounts_change served (.setOptional edge value) (fun _ => .done) rfl
      fun _ => noContent_mem
  | deleteEdge edge =>
    exact accounts_change served (.deleteEdge edge) (fun _ => .done) rfl fun _ => noContent_mem
  | select element =>
    cases element with
    | some element =>
      -- the answer lists the suggestions of the session after the selection
      let answer := fun _ : Selection =>
        Response.value (suggestionsJson (s.edit (·.select element)).1)
      show Accounts base sizes failures s (Action.change s (·.select element) answer).1 _
      exact accounts_change served (.select element) .selection rfl fun _ => ok_mem
    | none =>
      show Accounts base sizes failures s (s.edit fun c => (c.clearSelection, ())).1 _
      exact ⟨served_edit served .clearSelection rfl, .worked ok_mem⟩
  | acceptSuggestion index =>
    exact ⟨.acceptSuggestion served index, handled_acceptSuggestion served index fun _ => ok_mem⟩
  | removeSuggestion index =>
    exact ⟨.removeSuggestion served index, handled_removeSuggestion index fun _ => ok_mem⟩
  | showQuery =>
    refine ⟨served, handled_ofOutcome (fun _ => ok_mem) fun error refused => ?_⟩
    exact ⟨isFault_of_compile served refused, .refl s⟩

end Server

end QueryCanvas
