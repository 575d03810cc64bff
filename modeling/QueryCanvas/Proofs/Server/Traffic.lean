/-
  QueryCanvas.Proofs.Server.Traffic

  All that can happen at the server: requests of any kind, in any order and with
  any answers of the services. While a service takes its time other requests are
  answered, so reloads and the resolving of prefixes come in pieces here.

  The services are a state machine of their own (`StateM`), which covers every
  script of answers and failures. What is proved of a command that asks them
  holds for each (`Ensures`): it leads to another session that the server can
  have, and what is answered accounts for that session (`Accounts`). Over a
  whole run this is `runLogged_induct`.
-/

import QueryCanvas.Proofs.Server.Answers
import QueryCanvas.Proofs.Session.Loads

namespace QueryCanvas.Server

variable {base : String} {sizes : ShapeSizes Float} {s : Session} {σ : Type}

/-- Beginning a load hands out a ticket and shows nothing of it. -/
theorem untouched_beginLoad (s : Session) : Untouched s s.beginLoad.1 := ⟨rfl, rfl, rfl, rfl⟩

/-! ## Whatever the services answer -/

/-- The result is as stated, whatever the services have to say. -/
def Ensures {β : Type} (action : StateM σ β) (post : β → Prop) : Prop :=
  ∀ script, post (action.run script).1

namespace Ensures

variable {β γ : Type} {post : β → Prop} {post' : γ → Prop}

theorem pure {b : β} (h : post b) : Ensures (pure b : StateM σ β) post := fun _ => h

theorem bind {action : StateM σ β} {next : β → StateM σ γ} (h : Ensures action post)
    (rest : ∀ b, post b → Ensures (next b) post') : Ensures (action >>= next) post' :=
  fun script => rest _ (h script) (action.run script).2

/-- Nothing is known of what a service says. -/
theorem any (action : StateM σ β) : Ensures action fun _ => True := fun _ => trivial

end Ensures

/-! ## Commands that ask a service -/

/-- A query that cannot be run has no outputs, or the triple store is to blame. -/
theorem isFault_of_execute (served : Served base sizes s) (services : Services (StateM σ)) :
    Ensures (s.execute services) fun outcome =>
      ∀ error, outcome = .error error → error.isFault = false := by
  unfold Session.execute
  cases hcompile : s.compile with
  | error reason =>
    refine .pure fun error refused => ?_
    cases refused
    exact isFault_of_compile served hcompile
  | ok query =>
    refine (Ensures.any (services.select query)).bind fun answer _ => .pure fun error refused => ?_
    cases answer with
    | ok results => cases refused
    | error reason =>
      cases refused
      rfl

/-- A load that is not finished was not answered, or it was superseded. -/
theorem isFault_of_finishLoad {ticket : LoadTicket} {fetched : Except ServiceError Results}
    {error : SessionError} (failed : (s.finishLoad ticket fetched).2 = .error error) :
    error.isFault = false := by
  cases fetched with
  | error reason =>
    cases failed
    rfl
  | ok results =>
    by_cases hticket : ticket.generation = s.ontology.generation
    · rw [Session.finishLoad_of_current hticket] at failed
      cases failed
    · rw [Session.finishLoad_of_stale hticket] at failed
      cases failed
      rfl

/-- The answer when a reload is finished, in time or not. -/
def reloadResponse (outcome : Except SessionError LoadReport) : Response :=
  .ofOutcome (fun report => .value (reportJson report)) outcome

theorem accounts_finishLoad (served : Served base sizes s) (ticket : LoadTicket)
    (fetched : Except ServiceError Results) :
    Accounts base sizes failures s (s.finishLoad ticket fetched).1
      (reloadResponse (s.finishLoad ticket fetched).2) := by
  refine ⟨.finishLoad served ticket fetched, ?_⟩
  refine handled_ofOutcome (fun _ => ok_mem) fun error failed => ⟨isFault_of_finishLoad failed, ?_⟩
  rw [Session.finishLoad_of_error failed]
  exact .refl s

/-- A reload that fails has changed nothing since before it was begun. -/
theorem accounts_reload (served : Served base sizes s) (fetched : Except ServiceError Results) :
    let outcome := s.beginLoad.1.finishLoad s.beginLoad.2 fetched
    Accounts base sizes failures s outcome.1 (reloadResponse outcome.2) := by
  obtain ⟨hserved, hhandled⟩ := accounts_finishLoad (.beginLoad served) s.beginLoad.2 fetched
  refine ⟨hserved, ?_⟩
  cases hhandled with
  | worked status => exact .worked status
  | failed status untouched => exact .failed status ((untouched_beginLoad s).trans untouched)

/-- Carrying out a command works, or it fails and changes nothing. -/
theorem accounts_execute (served : Served base sizes s) (services : Services (StateM σ))
    (command : Command) :
    Ensures (command.execute services s) fun outcome =>
      Accounts base sizes failures s outcome.1 outcome.2 := by
  cases command with
  | act action => exact .pure (accounts_perform served action)
  | executeQuery =>
    refine (isFault_of_execute served services).bind fun outcome sound => .pure ⟨served, ?_⟩
    exact handled_ofOutcome (fun _ => ok_mem) fun error refused => ⟨sound error refused, .refl s⟩
  | reloadOntology =>
    have hreload : Ensures (s.reloadOntology services) fun outcome =>
        ∃ fetched, outcome = s.beginLoad.1.finishLoad s.beginLoad.2 fetched :=
      (Ensures.any (services.select ontologyQuery)).bind fun fetched _ => .pure ⟨fetched, rfl⟩
    refine hreload.bind fun outcome houtcome => .pure ?_
    obtain ⟨fetched, rfl⟩ := houtcome
    exact accounts_reload served fetched

/-! ## Requests -/

/-- The statuses with which a request can fail. -/
def Request.errors (r : Request) : List Nat :=
  match Command.ofRequest r with
  | .ok _ => failures
  | .error _ => rejections

/-- Leaving out the body makes no difference. -/
theorem Handled.withoutBody {errors : List Nat} {s' : Session} {response : Response}
    (h : Handled errors s s' response) : Handled errors s s' response.withoutBody := by
  cases h with
  | worked status => exact .worked status
  | failed status untouched => exact .failed status untouched

/-- Resolving prefixes, whatever the prefix service says, is nothing that the server cannot do. -/
theorem served_resolvePrefixes (served : Served base sizes s) (services : Services (StateM σ)) :
    Ensures (s.resolvePrefixes services) fun outcome => Served base sizes outcome.1 := by
  have hbegun : Served base sizes s.beginPrefixes.1 := .beginPrefixes served
  unfold Session.resolvePrefixes
  dsimp only
  split
  · exact .pure hbegun
  · refine (Ensures.any _).bind fun answers _ => .pure ?_
    exact .finishPrefixes hbegun fun _ _ _ _ => trivial

theorem accounts_respond (served : Served base sizes s) (services : Services (StateM σ))
    (r : Request) :
    Ensures (respond services s r) fun outcome =>
      Accounts base sizes r.errors s outcome.1 outcome.2 := by
  unfold respond Request.errors
  cases hcommand : Command.ofRequest r with
  | error status =>
    exact .pure ⟨served, .failed (Judged.ofRequest r status hcommand) (.refl s)⟩
  | ok command =>
    refine (accounts_execute served services command).bind ?_
    rintro ⟨s', response⟩ haccounts
    dsimp only
    split
    · next hleaves =>
      -- the answer is settled before prefixes are resolved
      have hok : response.status = Status.ok := by simp_all
      have hworked : response.status ∈ successes := hok ▸ ok_mem
      refine (served_resolvePrefixes haccounts.served services).bind fun outcome hserved => ?_
      exact .pure ⟨hserved, .worked hworked⟩
    · exact .pure haccounts

/-- Answering a request accounts for what has become of the session. -/
theorem accounts_serve (served : Served base sizes s) (services : Services (StateM σ))
    (r : Request) :
    Ensures (serve services s r) fun outcome =>
      Accounts base sizes r.errors s outcome.1 outcome.2 := by
  unfold serve
  split
  · exact .pure ⟨served, .worked ok_mem⟩
  refine (accounts_respond served services r).bind ?_
  rintro ⟨s', response⟩ haccounts
  refine .pure ⟨haccounts.served, ?_⟩
  dsimp only
  split
  · exact haccounts.handled.withoutBody
  · exact haccounts.handled

/-! ## Traffic -/

/-- What happens at the server. A reload and the resolving of prefixes are also there in pieces,
    between which other requests are answered. -/
inductive Move
  | request (r : Request)
  | beginReload
  | finishReload (ticket : LoadTicket) (fetched : Except ServiceError Results)
  | beginPrefixes
  | finishPrefixes (answers : PrefixAnswers)

/-- The statuses with which a move can fail. -/
def Move.errors : Move → List Nat
  | request r => r.errors
  | beginReload | finishReload _ _ | beginPrefixes | finishPrefixes _ => failures

/-- What has become of a session and its services, and the answer that went out. -/
def advance (services : Services (StateM σ)) : Session × σ → Move → (Session × σ) × Option Response
  | (s, script), .request r =>
    let ((s, response), script) := (serve services s r).run script
    ((s, script), some response)
  | (s, script), .beginReload => ((s.beginLoad.1, script), none)
  | (s, script), .finishReload ticket fetched =>
    let (s, outcome) := s.finishLoad ticket fetched
    ((s, script), some (reloadResponse outcome))
  | (s, script), .beginPrefixes => ((s.beginPrefixes.1, script), none)
  | (s, script), .finishPrefixes answers => (((s.finishPrefixes answers).1, script), none)

/-- After traffic of any kind the server has a session and services that go on answering. -/
def after (services : Services (StateM σ)) (start : Session × σ) (moves : List Move) :
    Session × σ :=
  (runLogged (advance services) start moves).1

/-- Every move leads to another session that the server can have. -/
theorem served_advance (services : Services (StateM σ)) {now : Session × σ}
    (served : Served base sizes now.1) (move : Move) :
    Served base sizes (advance services now move).1.1 := by
  cases move with
  | request r => exact (accounts_serve served services r now.2).served
  | beginReload => exact .beginLoad served
  | finishReload ticket fetched => exact .finishLoad served ticket fetched
  | beginPrefixes => exact .beginPrefixes served
  | finishPrefixes answers => exact .finishPrefixes served fun _ _ _ _ => trivial

/-- Every run leads to a session that the server can have. -/
theorem served_after (services : Services (StateM σ)) (script : σ) (base : String)
    (sizes : ShapeSizes Float) (moves : List Move) :
    Served base sizes (after services (.new base sizes, script) moves).1 := by
  refine runLogged_induct (P := fun (now : Session × σ) _ => Served base sizes now.1) .new ?_
  intro now _ move _ hnow
  exact served_advance services hnow move

/-- What goes out accounts for what has become of the session. -/
theorem handled_advance (services : Services (StateM σ)) {now : Session × σ}
    (served : Served base sizes now.1) {move : Move} {response : Response}
    (answered : (advance services now move).2 = some response) :
    Handled move.errors now.1 (advance services now move).1.1 response := by
  cases move with
  | request r =>
    cases answered
    exact (accounts_serve served services r now.2).handled
  | finishReload ticket fetched =>
    cases answered
    exact (accounts_finishLoad served ticket fetched).handled
  | beginReload | beginPrefixes | finishPrefixes answers => cases answered

/-- None of the statuses for what failed is that of an internal error. -/
theorem Move.internalError_not_mem_errors (move : Move) : Status.internalError ∉ move.errors := by
  have hfailures : Status.internalError ∉ failures := by decide
  have hrejections : Status.internalError ∉ rejections := by decide
  cases move with
  | request r =>
    show Status.internalError ∉ r.errors
    unfold Request.errors
    split
    · exact hfailures
    · exact hrejections
  | beginReload | finishReload ticket fetched | beginPrefixes | finishPrefixes answers =>
    exact hfailures

/-- Whatever was asked before, and whatever the services have answered or failed to: every request
    is answered, and never with an internal error. If the answer is an error, then it is one of
    those with which such a request can fail, and nothing has changed: neither the canvas with its
    diagram, mode and selection, nor the suggestions, the facts or the prefixes. The same is true of
    a reload in pieces, and its beginning changes nothing. -/
theorem errors_leave_no_trace (services : Services (StateM σ)) (script : σ) (base : String)
    (sizes : ShapeSizes Float) (before : List Move) :
    let now := after services (.new base sizes, script) before
    (∀ r, ∃ response, (advance services now (.request r)).2 = some response) ∧
      (∀ move response, (advance services now move).2 = some response →
        response.status ≠ Status.internalError ∧
          (response.status ∈ successes ∨
            response.status ∈ move.errors ∧ Untouched now.1 (advance services now move).1.1)) ∧
      Untouched now.1 (advance services now .beginReload).1.1 := by
  intro now
  have hserved : Served base sizes now.1 := served_after services script base sizes before
  refine ⟨fun r => ⟨_, rfl⟩, fun move response hanswered => ?_, untouched_beginLoad now.1⟩
  cases handled_advance services hserved hanswered with
  | worked status =>
    have hsuccesses : Status.internalError ∉ successes := by decide
    exact ⟨fun h => hsuccesses (h ▸ status), .inl status⟩
  | failed status untouched =>
    exact ⟨fun h => move.internalError_not_mem_errors (h ▸ status), .inr ⟨status, untouched⟩⟩

/-- A triple store that gives its answers in turn until it has no more, and a prefix service that
    knows nothing. -/
def scripted : Services (StateM (List (Except ServiceError Results))) where
  select _ := do
    match ← get with
    | [] => pure (.error (.network "no answer"))
    | answer :: answers =>
      set answers
      pure answer
  shorten term := pure (.error (.rejected term))

/-- An edge from `:Person` to `?`; one load has worked, and of two others the later is awaited. -/
def opening : List Move :=
  [.request ⟨"POST", "/api/nodes", some "application/json",
      "\x7b\"x\":0,\"y\":0,\"content\":\":Person\"\x7d"⟩,
    .request ⟨"POST", "/api/edges", some "application/json", "\x7b\"subject\":1\x7d"⟩,
    .request ⟨"POST", "/api/ontology/reload", none, ""⟩, .beginReload, .beginReload]

def opened : Session × List (Except ServiceError Results) :=
  after scripted (.new "http://base/" defaultSizes, [.ok ⟨[], []⟩]) opening

/-- An unknown node, a body of the wrong form, a diagram without outputs, a load that comes too
    late, and a triple store that gives no answer. -/
def failing : List Move :=
  [.request ⟨"DELETE", "/api/nodes/7", none, ""⟩,
    .request ⟨"PUT", "/api/edges/1/optional", some "application/json", "\x7b\"optional\":1\x7d"⟩,
    .request ⟨"GET", "/api/query", none, ""⟩,
    .finishReload ⟨2⟩ (.ok ⟨[], []⟩),
    .request ⟨"POST", "/api/ontology/reload", none, ""⟩]

theorem errors_leave_no_trace_opened :
    failing.map (fun move => (advance scripted opened move).2.map (·.status)) =
        [some Status.notFound, some Status.unprocessable, some Status.unprocessable,
          some Status.conflict, some Status.badGateway] ∧
      ∀ move ∈ failing, Untouched opened.1 (advance scripted opened move).1.1 := by
  obtain ⟨-, haccounts, -⟩ := errors_leave_no_trace scripted [.ok ⟨[], []⟩] "http://base/"
    defaultSizes opening
  have hfailed : ∀ move ∈ failing,
      (advance scripted opened move).2.any fun response => response.status ∉ successes := by
    decide +kernel
  refine ⟨by decide +kernel, fun move hmove => ?_⟩
  obtain ⟨response, hanswered, herror⟩ := (Option.any_eq_true _ _).1 (hfailed move hmove)
  obtain ⟨-, hstatus | ⟨-, untouched⟩⟩ := haccounts move response hanswered
  · exact absurd hstatus (of_decide_eq_true herror)
  · exact untouched

end QueryCanvas.Server
