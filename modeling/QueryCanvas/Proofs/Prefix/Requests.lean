/-
  QueryCanvas.Proofs.Prefix.Requests

  Every request for a prefix is handed out once and answered at most once,
  however its answers are delayed, repeated or mixed up.

  The table and what has happened outside of it have to agree: a namespace is
  pending exactly while its request is outstanding, an outstanding request lies
  in the queue or was handed out, and the generation is that of the latest
  request. `Accounts` is this invariant. A call goes in one of seven ways
  (`Step`), and `Accounts.step` looks at each of them once.
-/

import Mathlib.Data.List.Nodup
import QueryCanvas.Proofs.Log
import QueryCanvas.Proofs.Prefix.Table

namespace QueryCanvas.PrefixTable

/-! ## Runs -/

/-- The calls that change a table. Answers come in any order and any number of times. -/
inductive Call
  | resolve (expansion : String)
  | takeRequests
  | complete (request : PrefixRequest) (answer : Except ServiceError String)
  | insert (expansion short : String)
  | clear

/-- What is noted of a call. -/
inductive Note
  /-- A look-up has put these requests in the queue. -/
  | queued (requests : List PrefixRequest)
  | handedOut (requests : List PrefixRequest)
  | answered (request : PrefixRequest) (accepted : Bool)
  | inserted (expansion : String)
  | cleared
deriving DecidableEq, Repr

/-- Performs a call and notes what has come of it. -/
def perform (t : PrefixTable) : Call → PrefixTable × Note
  | .resolve expansion =>
    ((t.resolve expansion).1, .queued ((t.resolve expansion).1.queue.drop t.queue.length))
  | .takeRequests => (t.takeRequests.1, .handedOut t.takeRequests.2)
  | .complete request answer =>
    ((t.complete request answer).1, .answered request (t.complete request answer).2)
  | .insert expansion short => (t.insert expansion short, .inserted expansion)
  | .clear => (t.clear, .cleared)

/-- Performs calls one after the other. -/
def run (t : PrefixTable) (calls : List Call) : PrefixTable × List Note :=
  runLogged perform t calls

namespace Note

/-- The requests that a call has put in the queue. -/
def queuedRequests : Note → List PrefixRequest
  | queued requests => requests
  | _ => []

def handedOutRequests : Note → List PrefixRequest
  | handedOut requests => requests
  | _ => []

/-- The request whose answer a call has accepted. -/
def acceptedRequests : Note → List PrefixRequest
  | answered request true => [request]
  | _ => []

/-- What ends the wait for an answer: the answer itself, a prefix from elsewhere, a newer request
    for the namespace, or forgetting everything. -/
def Settles (request : PrefixRequest) : Note → Prop
  | queued requests => ∃ newer ∈ requests, newer.expansion = request.expansion
  | handedOut _ => False
  | answered other accepted => accepted = true ∧ other = request
  | inserted expansion => expansion = request.expansion
  | cleared => True

end Note

/-- The requests that were put in the queue, oldest first. -/
def requestsIn (log : List Note) : List PrefixRequest := log.flatMap Note.queuedRequests

def handedOutIn (log : List Note) : List PrefixRequest := log.flatMap Note.handedOutRequests

def acceptedIn (log : List Note) : List PrefixRequest := log.flatMap Note.acceptedRequests

section Append

variable (log : List Note) (note : Note)

@[simp] theorem requestsIn_append :
    requestsIn (log ++ [note]) = requestsIn log ++ note.queuedRequests := by
  simp [requestsIn]

@[simp] theorem handedOutIn_append :
    handedOutIn (log ++ [note]) = handedOutIn log ++ note.handedOutRequests := by
  simp [handedOutIn]

@[simp] theorem acceptedIn_append :
    acceptedIn (log ++ [note]) = acceptedIn log ++ note.acceptedRequests := by
  simp [acceptedIn]

end Append

/-- A request was put in the queue, and nothing has settled it since. -/
def IsOutstanding (log : List Note) (request : PrefixRequest) : Prop :=
  Outstanding (Note.Settles request) log (.queued [request])

/-! ## What a call does -/

/-- The ways in which a call can go. -/
inductive Step (t : PrefixTable) : Call → PrefixTable → Note → Prop
  | known (expansion : String) : Step t (.resolve expansion) t (.queued [])
  | asked {expansion : String} (foreign : expansion ≠ t.base)
      (unknown : t.entries.get? expansion = none) :
      Step t (.resolve expansion)
        { t with
          entries := t.entries.insert expansion (.pending (t.generation + 1))
          queue := t.queue ++ [⟨expansion, t.generation + 1⟩]
          generation := t.generation + 1 }
        (.queued [⟨expansion, t.generation + 1⟩])
  | taken : Step t .takeRequests { t with queue := [] } (.handedOut t.queue)
  | accepted {request : PrefixRequest} (answer : Except ServiceError String)
      (awaited : t.Awaits request) :
      Step t (.complete request answer) (t.setEntry request.expansion (entryOf answer))
        (.answered request true)
  | refused {request : PrefixRequest} (answer : Except ServiceError String)
      (unawaited : ¬ t.Awaits request) :
      Step t (.complete request answer) t (.answered request false)
  | inserted (expansion short : String) :
      Step t (.insert expansion short) (t.setEntry expansion (.resolved short))
        (.inserted expansion)
  | cleared : Step t .clear t.clear .cleared

theorem step_perform (t : PrefixTable) (call : Call) :
    Step t call (t.perform call).1 (t.perform call).2 := by
  cases call with
  | resolve expansion =>
    rcases t.resolve_cases expansion with hsame | ⟨foreign, unknown, hasked⟩
    · rw [perform, hsame, List.drop_length]
      exact .known expansion
    · rw [perform, hasked, List.drop_left]
      exact .asked foreign unknown
  | takeRequests => exact .taken
  | complete request answer =>
    by_cases h : t.Awaits request
    · rw [perform, complete_of_awaited h]
      exact .accepted answer h
    · rw [perform, complete_of_unawaited h]
      exact .refused answer h
  | insert expansion short => exact .inserted expansion short
  | clear => exact .cleared

/-- Two requests that a namespace is waiting for are the same. -/
theorem Awaits.eq {t : PrefixTable} {request other : PrefixRequest} (h : t.Awaits request)
    (h' : t.Awaits other) (same : other.expansion = request.expansion) : other = request := by
  unfold Awaits at h h'
  rw [same, h] at h'
  cases request
  cases other
  simp_all

theorem entryOf_ne_pending (answer : Except ServiceError String) (generation : Nat) :
    entryOf answer ≠ .pending generation := by
  unfold entryOf
  split
  · split <;> simp
  · simp

namespace Step

variable {t t' : PrefixTable} {call : Call} {note : Note}

theorem base_eq (hstep : Step t call t' note) : t'.base = t.base := by
  cases hstep <;> rfl

/-- A call asks for nothing, or for one request of the next generation. -/
theorem generation_cases (hstep : Step t call t' note) :
    note.queuedRequests = [] ∧ t'.generation = t.generation ∨
      ∃ request : PrefixRequest, note = .queued [request] ∧
        request.generation = t.generation + 1 ∧ t'.generation = t.generation + 1 := by
  cases hstep with
  | asked foreign unknown => exact .inr ⟨_, rfl, rfl, rfl⟩
  | _ => exact .inl ⟨rfl, rfl⟩

/-- A namespace waits for what it was just asked for, and for what it was waiting for before unless
    the call has settled that. -/
theorem awaits_iff (hstep : Step t call t' note) (request : PrefixRequest) :
    t'.Awaits request ↔ note = .queued [request] ∨ t.Awaits request ∧ ¬ note.Settles request := by
  cases hstep with
  | known expansion => simp [Note.Settles]
  | @asked expansion foreign unknown =>
    by_cases hsame : expansion = request.expansion
    · subst hsame
      cases request
      simp [Awaits, Note.Settles]
    · have hother : (⟨expansion, t.generation + 1⟩ : PrefixRequest) ≠ request :=
        fun h => hsame (h ▸ rfl)
      simp [Awaits, Note.Settles, hsame, hother]
  | taken => simp [Awaits, Note.Settles]
  | @accepted other answer awaited =>
    by_cases hsame : other.expansion = request.expansion
    -- of the requests for one namespace only one is awaited, and this one is settled
    · have hsettled : t.Awaits request → other = request := fun h => h.eq awaited hsame
      simpa [Awaits, setEntry, Note.Settles, hsame, entryOf_ne_pending] using hsettled
    · have hother : other ≠ request := fun h => hsame (h ▸ rfl)
      simp [Awaits, setEntry, Note.Settles, hsame, hother]
  | refused answer unawaited => simp [Note.Settles]
  | inserted expansion short =>
    by_cases hsame : expansion = request.expansion <;>
      simp [Awaits, setEntry, Note.Settles, hsame]
  | cleared => simp [Awaits, PrefixTable.clear, Note.Settles]

/-- Requests go from the call that asks for them into the queue, and from there to the call that
    takes them; only clearing drops some. -/
theorem count_conserved (hstep : Step t call t' note) (keeps : note ≠ .cleared)
    (request : PrefixRequest) :
    t'.queue.count request + note.handedOutRequests.count request =
      t.queue.count request + note.queuedRequests.count request := by
  cases hstep with
  | asked foreign unknown =>
    simp [Note.handedOutRequests, Note.queuedRequests, List.count_append]
  | taken => simp [Note.handedOutRequests, Note.queuedRequests]
  | cleared => exact absurd rfl keeps
  | _ => rfl

theorem mem_queue (hstep : Step t call t' note) {request : PrefixRequest}
    (h : request ∈ t'.queue ∨ request ∈ note.handedOutRequests) :
    request ∈ t.queue ∨ request ∈ note.queuedRequests := by
  cases hstep with
  | asked foreign unknown => simpa [Note.handedOutRequests, Note.queuedRequests] using h
  | taken => exact .inl (by simpa [Note.handedOutRequests] using h)
  | cleared => simp [PrefixTable.clear, Note.handedOutRequests] at h
  | _ => exact .inl (by simpa [Note.handedOutRequests, setEntry] using h)

/-- An answer is accepted for an awaited request, and settles it. -/
theorem of_mem_accepted (hstep : Step t call t' note) {request : PrefixRequest}
    (h : request ∈ note.acceptedRequests) : note = .answered request true ∧ t.Awaits request := by
  cases hstep with
  | accepted answer awaited =>
    obtain rfl := List.mem_singleton.1 h
    exact ⟨rfl, awaited⟩
  | _ => simp [Note.acceptedRequests] at h

end Step

/-- What is entered about a namespace does not hide that something was entered about others. -/
theorem entered_insert {t : PrefixTable} {other : String} (h : t.entries.get? other ≠ none)
    (expansion : String) (entry : PrefixEntry) :
    (t.entries.insert expansion entry).get? other ≠ none := by
  rw [Dict.get?_insert]
  split
  · simp
  · exact h

/-! ## At most one request for a namespace -/

/-- Whatever was asked for has an entry, and was asked for once. -/
structure AskedOnce (t : PrefixTable) (log : List Note) : Prop where
  nodup : ((requestsIn log).map PrefixRequest.expansion).Nodup
  entered : ∀ request ∈ requestsIn log, t.entries.get? request.expansion ≠ none
  foreign : ∀ request ∈ requestsIn log, request.expansion ≠ t.base

namespace AskedOnce

variable {t t' : PrefixTable} {log : List Note} {call : Call} {note : Note}

/-- A call that asks for nothing, and removes no entry. -/
theorem quiet (h : AskedOnce t log) (asks : note.queuedRequests = []) (base : t'.base = t.base)
    (kept : ∀ other, t.entries.get? other ≠ none → t'.entries.get? other ≠ none) :
    AskedOnce t' (log ++ [note]) := by
  have hsame : requestsIn (log ++ [note]) = requestsIn log := by simp [asks]
  exact {
    nodup := hsame ▸ h.nodup
    entered := fun request hmem => kept _ (h.entered request (hsame ▸ hmem))
    foreign := fun request hmem => base ▸ h.foreign request (hsame ▸ hmem) }

/-- No call other than clearing removes an entry, and what has one is not asked for. -/
theorem step (h : AskedOnce t log) (hstep : Step t call t' note) (keeps : call ≠ .clear) :
    AskedOnce t' (log ++ [note]) := by
  cases hstep with
  | known expansion => exact h.quiet rfl rfl fun _ => id
  | @asked expansion foreign unknown =>
    have hnew : ∀ request ∈ requestsIn log, request.expansion ≠ expansion := by
      rintro request hmem rfl
      exact h.entered request hmem unknown
    refine ⟨?_, fun request hmem => ?_, fun request hmem => ?_⟩
    · rw [requestsIn_append, List.map_append, List.nodup_append]
      refine ⟨h.nodup, List.nodup_singleton _, ?_⟩
      simpa [Note.queuedRequests] using hnew
    · rw [requestsIn_append, Note.queuedRequests, List.mem_append, List.mem_singleton] at hmem
      rcases hmem with hmem | rfl
      · exact entered_insert (h.entered request hmem) _ _
      · simp
    · rw [requestsIn_append, Note.queuedRequests, List.mem_append, List.mem_singleton] at hmem
      rcases hmem with hmem | rfl
      · exact h.foreign request hmem
      · exact foreign
  | taken => exact h.quiet rfl rfl fun _ => id
  | accepted answer awaited => exact h.quiet rfl rfl fun _ hother => entered_insert hother _ _
  | refused answer unawaited => exact h.quiet rfl rfl fun _ => id
  | inserted expansion short => exact h.quiet rfl rfl fun _ hother => entered_insert hother _ _
  | cleared => exact absurd rfl keeps

/-- A run without clearing asks for no namespace twice, and not for the base. -/
theorem run (t : PrefixTable) {calls : List Call} (keeps : .clear ∉ calls) :
    AskedOnce (t.run calls).1 (t.run calls).2 := by
  refine runLogged_induct ⟨.nil, by simp [requestsIn], by simp [requestsIn]⟩ ?_
  intro t' log call hcall h
  exact h.step (step_perform t' call) fun heq => keeps (heq ▸ hcall)

end AskedOnce

theorem base_run (t : PrefixTable) (calls : List Call) : (t.run calls).1.base = t.base := by
  refine runLogged_induct (P := fun (t' : PrefixTable) (_ : List Note) => t'.base = t.base) rfl ?_
  exact fun t' log call _ h => (step_perform t' call).base_eq.trans h

/-! ## The invariant -/

/-- The table agrees with the log of what has happened to it. -/
structure Accounts (t : PrefixTable) (log : List Note) : Prop where
  ascending : (requestsIn log).Pairwise (·.generation < ·.generation)
  bounded : ∀ request ∈ requestsIn log, request.generation ≤ t.generation
  awaits_iff : ∀ request, t.Awaits request ↔ IsOutstanding log request
  placed : ∀ request, t.Awaits request →
    t.queue.count request + (handedOutIn log).count request = 1
  issued : ∀ request, request ∈ t.queue ∨ request ∈ handedOutIn log ∨ request ∈ acceptedIn log →
    request ∈ requestsIn log
  accepted_nodup : (acceptedIn log).Nodup
  accepted_settled : ∀ request ∈ acceptedIn log, ¬ t.Awaits request

theorem IsOutstanding.mem_requestsIn {log : List Note} {request : PrefixRequest}
    (h : IsOutstanding log request) : request ∈ requestsIn log := by
  obtain ⟨before, after, rfl, -⟩ := h
  simp [requestsIn, Note.queuedRequests]

namespace Accounts

variable {t t' : PrefixTable} {log : List Note} {call : Call} {note : Note}

theorem new (base : String) : Accounts (.new base) [] where
  ascending := .nil
  bounded := by simp [requestsIn]
  awaits_iff request := by
    refine iff_of_false ?_ not_outstanding_nil
    simp [Awaits, PrefixTable.new]
  placed request h := by simp [Awaits, PrefixTable.new] at h
  issued request h := by simp [PrefixTable.new, handedOutIn, acceptedIn] at h
  accepted_nodup := .nil
  accepted_settled := by simp [acceptedIn]

theorem mem_requestsIn (h : Accounts t log) {request : PrefixRequest} (awaits : t.Awaits request) :
    request ∈ requestsIn log := ((h.awaits_iff request).1 awaits).mem_requestsIn

/-- What a call asks for was never asked for before. -/
theorem fresh (h : Accounts t log) (hstep : Step t call t' note) {request : PrefixRequest}
    (hnew : note = .queued [request]) : request ∉ requestsIn log := by
  intro hmem
  have hle := h.bounded request hmem
  rcases hstep.generation_cases with ⟨hnone, -⟩ | ⟨other, hother, hgeneration, -⟩
  · rw [hnew] at hnone
    cases hnone
  · rw [hnew] at hother
    cases hother
    omega

theorem step_ascending (h : Accounts t log) (hstep : Step t call t' note) :
    (requestsIn (log ++ [note])).Pairwise (·.generation < ·.generation) ∧
      ∀ request ∈ requestsIn (log ++ [note]), request.generation ≤ t'.generation := by
  rcases hstep.generation_cases with ⟨hnone, hsame⟩ | ⟨request, rfl, hnew, hnext⟩
  · rw [requestsIn_append, hnone, List.append_nil, hsame]
    exact ⟨h.ascending, h.bounded⟩
  · rw [requestsIn_append, Note.queuedRequests]
    refine ⟨?_, ?_⟩
    · rw [List.pairwise_append]
      refine ⟨h.ascending, List.pairwise_singleton _ _, fun old hold other hother => ?_⟩
      rw [List.mem_singleton.1 hother, hnew]
      exact Nat.lt_succ_of_le (h.bounded old hold)
    · intro other hother
      rcases List.mem_append.1 hother with hold | hother
      · exact hnext ▸ Nat.le_succ_of_le (h.bounded other hold)
      · obtain rfl := List.mem_singleton.1 hother
        omega

theorem step_placed (h : Accounts t log) (hstep : Step t call t' note) {request : PrefixRequest}
    (awaits : t'.Awaits request) :
    t'.queue.count request + (handedOutIn (log ++ [note])).count request = 1 := by
  have hkept : note ≠ .cleared := by
    rintro rfl
    rcases (hstep.awaits_iff request).1 awaits with hnew | ⟨-, hnot⟩
    · cases hnew
    · exact hnot trivial
  have hcount := hstep.count_conserved hkept request
  rw [handedOutIn_append, List.count_append]
  rcases (hstep.awaits_iff request).1 awaits with hnew | ⟨hold, hnot⟩
  -- a new request is nowhere yet
  · have hfresh := h.fresh hstep hnew
    have hqueue : t.queue.count request = 0 :=
      List.count_eq_zero.2 fun hmem => hfresh (h.issued request (.inl hmem))
    have hout : (handedOutIn log).count request = 0 :=
      List.count_eq_zero.2 fun hmem => hfresh (h.issued request (.inr (.inl hmem)))
    have hone : note.queuedRequests.count request = 1 := by simp [hnew, Note.queuedRequests]
    omega
  -- an old one is not asked for again
  · have hplaced := h.placed request hold
    have hnone : note.queuedRequests.count request = 0 := by
      rw [List.count_eq_zero]
      intro hmem
      rcases hstep.generation_cases with ⟨hempty, -⟩ | ⟨other, rfl, -⟩
      · simp [hempty] at hmem
      · obtain rfl := List.mem_singleton.1 hmem
        exact h.fresh hstep rfl (h.mem_requestsIn hold)
    omega

theorem step_issued (h : Accounts t log) (hstep : Step t call t' note) {request : PrefixRequest}
    (hmem : request ∈ t'.queue ∨ request ∈ handedOutIn (log ++ [note]) ∨
      request ∈ acceptedIn (log ++ [note])) : request ∈ requestsIn (log ++ [note]) := by
  rw [handedOutIn_append, acceptedIn_append, List.mem_append, List.mem_append] at hmem
  rw [requestsIn_append, List.mem_append]
  rcases hmem with hqueue | (hold | hout) | (hold | haccepted)
  · exact (hstep.mem_queue (.inl hqueue)).imp_left fun hmem => h.issued request (.inl hmem)
  · exact .inl (h.issued request (.inr (.inl hold)))
  · exact (hstep.mem_queue (.inr hout)).imp_left fun hmem => h.issued request (.inl hmem)
  · exact .inl (h.issued request (.inr (.inr hold)))
  · exact .inl (h.mem_requestsIn (hstep.of_mem_accepted haccepted).2)

theorem step_accepted (h : Accounts t log) (hstep : Step t call t' note) :
    (acceptedIn (log ++ [note])).Nodup ∧
      ∀ request ∈ acceptedIn (log ++ [note]), ¬ t'.Awaits request := by
  rw [acceptedIn_append]
  refine ⟨?_, ?_⟩
  · rw [List.nodup_append]
    refine ⟨h.accepted_nodup, ?_, ?_⟩
    · cases note with
      | answered request accepted => cases accepted <;> simp [Note.acceptedRequests]
      | _ => simp [Note.acceptedRequests]
    · rintro request hold other hnew rfl
      exact h.accepted_settled request hold (hstep.of_mem_accepted hnew).2
  · intro request hmem hawaits
    rcases (hstep.awaits_iff request).1 hawaits with hnew | ⟨hbefore, hnot⟩
    -- what was accepted before was asked for before, and the accepted answer asks for nothing
    · rcases List.mem_append.1 hmem with hold | hnow
      · exact h.fresh hstep hnew (h.issued request (.inr (.inr hold)))
      · rw [(hstep.of_mem_accepted hnow).1] at hnew
        cases hnew
    · rcases List.mem_append.1 hmem with hold | hnow
      · exact h.accepted_settled request hold hbefore
      · rw [(hstep.of_mem_accepted hnow).1] at hnot
        exact hnot ⟨rfl, rfl⟩

/-- Every call keeps the invariant. -/
theorem step (h : Accounts t log) (hstep : Step t call t' note) : Accounts t' (log ++ [note]) where
  ascending := (h.step_ascending hstep).1
  bounded := (h.step_ascending hstep).2
  awaits_iff request := by
    rw [hstep.awaits_iff, IsOutstanding, outstanding_append_singleton, h.awaits_iff]
    rfl
  placed _ := h.step_placed hstep
  issued _ := h.step_issued hstep
  accepted_nodup := (h.step_accepted hstep).1
  accepted_settled := (h.step_accepted hstep).2

/-- Every run keeps the invariant. -/
theorem run (base : String) (calls : List Call) :
    Accounts ((PrefixTable.new base).run calls).1 ((PrefixTable.new base).run calls).2 :=
  runLogged_induct (.new base) fun t _ call _ h => h.step (step_perform t call)

end Accounts

/-! ## Requests and answers -/

/-- Whatever is done to a table, and in whatever order: requests have ascending generations;
    between two clearings none is made for the base or twice for a namespace; a request that is
    waited for was made once, lies in the queue or was handed out, once, and no answer to it was
    accepted. An answer is accepted if and only if its request is waited for, and otherwise changes
    nothing. No request is answered twice; one is waited for if and only if it was made and since
    then neither answered nor settled otherwise. -/
theorem requests_exactly_once {base : String} {calls : List Call} {t : PrefixTable}
    {log : List Note} (ran : (PrefixTable.new base).run calls = (t, log)) :
    (requestsIn log).Pairwise (·.generation < ·.generation) ∧
      (∀ before during after, calls = before ++ during ++ after → .clear ∉ during →
        let asked := (requestsIn (((PrefixTable.new base).run before).1.run during).2).map
          PrefixRequest.expansion
        asked.Nodup ∧ base ∉ asked) ∧
      (∀ expansion generation, t.entries.get? expansion = some (.pending generation) →
        let request : PrefixRequest := ⟨expansion, generation⟩
        (requestsIn log).count request = 1 ∧
          t.queue.count request + (handedOutIn log).count request = 1 ∧
          request ∉ acceptedIn log) ∧
      (∀ request answer,
        ((t.complete request answer).2 = true ↔
            t.entries.get? request.expansion = some (.pending request.generation)) ∧
          ((t.complete request answer).2 = false → (t.complete request answer).1 = t)) ∧
      (acceptedIn log).Nodup ∧
      ∀ request, t.entries.get? request.expansion = some (.pending request.generation) ↔
        IsOutstanding log request := by
  have h : Accounts t log := by
    have hrun := Accounts.run base calls
    rwa [ran] at hrun
  refine ⟨h.ascending, fun before during after _ keeps => ?_,
    fun expansion generation hpending => ?_, fun request answer => ?_, h.accepted_nodup,
    h.awaits_iff⟩
  · have honce := AskedOnce.run ((PrefixTable.new base).run before).1 keeps
    refine ⟨honce.nodup, fun hmem => ?_⟩
    obtain ⟨request, hrequest, hbase⟩ := List.mem_map.1 hmem
    refine honce.foreign request hrequest ?_
    rw [base_run, base_run, hbase]
    rfl
  · have hnodup : (requestsIn log).Nodup :=
      h.ascending.imp fun hlt heq => by simp [heq] at hlt
    exact ⟨List.count_eq_one_of_mem hnodup (h.mem_requestsIn hpending), h.placed _ hpending,
      fun haccepted => h.accepted_settled _ haccepted hpending⟩
  · by_cases hawaits : t.Awaits request
    · rw [complete_of_awaited hawaits]
      exact ⟨iff_of_true rfl hawaits, fun hfalse => by cases hfalse⟩
    · rw [complete_of_unawaited hawaits]
      exact ⟨iff_of_false (by simp) hawaits, fun _ => rfl⟩

/-- A namespace is asked for, forgotten and asked for anew. Then the answer to the first request
    comes in, and the second request is handed out. -/
def renewed : PrefixTable × List Note :=
  (PrefixTable.new "http://base/").run [.resolve "http://one/", .takeRequests, .clear,
    .resolve "http://one/", .complete ⟨"http://one/", 1⟩ (.ok "old:a"), .takeRequests]

theorem requests_exactly_once_renewed :
    renewed.2 = [.queued [⟨"http://one/", 1⟩], .handedOut [⟨"http://one/", 1⟩], .cleared,
        .queued [⟨"http://one/", 2⟩], .answered ⟨"http://one/", 1⟩ false,
        .handedOut [⟨"http://one/", 2⟩]] ∧
      renewed.1.entries.get? "http://one/" = some (.pending 2) ∧
      ((requestsIn renewed.2).count ⟨"http://one/", 2⟩ = 1 ∧
        renewed.1.queue.count ⟨"http://one/", 2⟩ +
            (handedOutIn renewed.2).count ⟨"http://one/", 2⟩ = 1 ∧
          ⟨"http://one/", 2⟩ ∉ acceptedIn renewed.2) ∧
      IsOutstanding renewed.2 ⟨"http://one/", 2⟩ ∧
      ¬ IsOutstanding renewed.2 ⟨"http://one/", 1⟩ := by
  have ran : (PrefixTable.new "http://base/").run _ = (renewed.1, renewed.2) := rfl
  obtain ⟨-, -, hpending, -, -, houtstanding⟩ := requests_exactly_once ran
  refine ⟨rfl, rfl, hpending _ _ rfl, (houtstanding _).1 rfl, fun hold => ?_⟩
  have hstale := (houtstanding ⟨"http://one/", 1⟩).2 hold
  cases hstale

end QueryCanvas.PrefixTable
