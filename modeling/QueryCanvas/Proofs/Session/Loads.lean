/-
  QueryCanvas.Proofs.Session.Loads

  Overlapping loads of a session, with edits and prefix answers in between. Of
  all loads that were begun only the latest can be finished, and an answer that
  comes too late, or not at all, changes nothing.

  To the ontology of the session a call does one of five things (`LoadStep`).
  The invariant `Agrees` follows from them as it does for an ontology alone.
-/

import QueryCanvas.Proofs.Ontology.Tickets
import QueryCanvas.Proofs.Session.Vocabulary

namespace QueryCanvas.Session

/-! ## Runs -/

/-- The calls that change a session. A change of the canvas may be any whatever. -/
inductive Call
  | edit (change : Canvas Float → Canvas Float)
  | beginLoad
  | finishLoad (ticket : LoadTicket) (fetched : Except ServiceError Results)
  | beginPrefixes
  | finishPrefixes (answers : PrefixAnswers)
  | refreshSuggestions
  | removeSuggestion (index : Nat)
  | acceptSuggestion (index : Nat)
  | clear

/-- What is noted of a call. -/
inductive Note
  | begun (ticket : LoadTicket)
  /-- A load was finished with an answer, or refused to be. -/
  | ended (fetched : Except ServiceError Results) (outcome : Except SessionError LoadReport)
  /-- The call has nothing to do with loads. -/
  | other

/-- Performs a call and notes what has come of it. -/
def call (s : Session) : Call → Session × Note
  | .edit change => ((s.edit fun c => (change c, ())).1, .other)
  | .beginLoad => (s.beginLoad.1, .begun s.beginLoad.2)
  | .finishLoad ticket fetched =>
    ((s.finishLoad ticket fetched).1, .ended fetched (s.finishLoad ticket fetched).2)
  | .beginPrefixes => (s.beginPrefixes.1, .other)
  | .finishPrefixes answers => ((s.finishPrefixes answers).1, .other)
  | .refreshSuggestions => (s.refreshSuggestions, .other)
  | .removeSuggestion index => ((s.removeSuggestion index).1, .other)
  | .acceptSuggestion index => ((s.acceptSuggestion index).1, .other)
  | .clear => (s.clear, .other)

/-- Performs calls one after the other. -/
def run (s : Session) (calls : List Call) : Session × List Note := runLogged call s calls

namespace Note

/-- Only the beginning of another load makes earlier tickets stale. -/
def Supersedes : Note → Prop
  | begun _ => True
  | ended _ _ | other => False

/-- The solutions that the facts are read from, given those before. -/
def bindings (before : List Binding) : Note → List Binding
  | ended (.ok results) (.ok _) => results.bindings
  | _ => before

end Note

/-- The load of a ticket was begun, and no other since. -/
def IsLatest (log : List Note) (ticket : LoadTicket) : Prop :=
  Outstanding Note.Supersedes log (.begun ticket)

/-- The solutions in the last answer with which a load was finished. -/
def lastBindings (log : List Note) : List Binding := log.foldl Note.bindings []

@[simp] theorem lastBindings_append (log : List Note) (note : Note) :
    lastBindings (log ++ [note]) = note.bindings (lastBindings log) := by
  simp [lastBindings]

/-! ## What a call does to the ontology -/

/-- What can become of the ontology. -/
inductive LoadStep (o : Ontology) : Ontology → Note → Prop
  | kept : LoadStep o o .other
  | refreshed (p : PrefixTable) : LoadStep o (o.refresh p) .other
  | begun : LoadStep o { o with generation := o.generation + 1 } (.begun ⟨o.generation + 1⟩)
  | refused (fetched : Except ServiceError Results) (error : SessionError) :
      LoadStep o o (.ended fetched (.error error))
  | loaded (results : Results) (p : PrefixTable) (report : LoadReport) :
      LoadStep o (o.index results.bindings p).1 (.ended (.ok results) (.ok report))

theorem LoadStep.of_proceeds {s s' : Session} (h : Proceeds s s') :
    LoadStep s.ontology s'.ontology .other := by
  rw [(KeepsTerms.of_proceeds h).ontology]
  exact .kept

theorem loadStep_call (s : Session) (c : Call) :
    LoadStep s.ontology (s.call c).1.ontology (s.call c).2 := by
  cases c with
  | edit change => exact .of_proceeds (.edit s fun c => (change c, ()))
  | beginLoad => exact .begun
  | finishLoad ticket fetched =>
    cases fetched with
    | error error => exact .refused _ _
    | ok results =>
      by_cases hticket : ticket.generation = s.ontology.generation
      -- the session catches up with the new facts, and this does not touch them
      · have hproceeds := (Proceeds.sync (s.loaded results.bindings)).trans (.refreshSuggestions _)
        rw [call, finishLoad_of_current hticket, (KeepsTerms.of_proceeds hproceeds).ontology]
        exact .loaded results s.prefixes _
      · rw [call, finishLoad_of_stale hticket]
        exact .refused _ _
  | beginPrefixes => exact .kept
  | finishPrefixes answers => exact .refreshed _
  | refreshSuggestions => exact .of_proceeds (.refreshSuggestions s)
  | removeSuggestion index => exact .of_proceeds (.removeSuggestion s index)
  | acceptSuggestion index => exact .of_proceeds (.acceptSuggestion s index)
  | clear => exact .of_proceeds (.clear s)

namespace LoadStep

variable {o o' : Ontology} {note : Note}

/-- The counter advances exactly when a load is begun. -/
theorem generation_cases (hstep : LoadStep o o' note) :
    note.Supersedes ∧ o'.generation = o.generation + 1 ∨
      ¬ note.Supersedes ∧ o'.generation = o.generation := by
  cases hstep with
  | kept => exact .inr ⟨id, rfl⟩
  | refreshed p => exact .inr ⟨id, rfl⟩
  | begun => exact .inl ⟨trivial, rfl⟩
  | refused fetched error => exact .inr ⟨id, rfl⟩
  | loaded results p report =>
    refine .inr ⟨id, ?_⟩
    rw [Ontology.index_eq]

theorem ticket_eq (hstep : LoadStep o o' note) (ticket : LoadTicket) (hnew : note = .begun ticket) :
    note.Supersedes ∧ ticket.generation = o'.generation := by
  subst hnew
  cases hstep
  exact ⟨trivial, rfl⟩

/-- The facts are replaced, or they go on relating what they related. -/
theorem iris_eq (hstep : LoadStep o o' note) {bindings : List Binding}
    (h : o.facts.map Fact.iris = bindings.filterMap Fact.irisOf?) :
    o'.facts.map Fact.iris = (note.bindings bindings).filterMap Fact.irisOf? := by
  cases hstep with
  | kept => exact h
  | refreshed p => exact (o.iris_refresh p).trans h
  | begun => exact h
  | refused fetched error => cases fetched <;> exact h
  | loaded results p report => exact o.iris_index results.bindings p

end LoadStep

/-! ## The invariant -/

/-- The counter and the facts agree with the log of what has happened. -/
structure Agrees (s : Session) (log : List Note) : Prop where
  counts : Counts Note.begun Note.Supersedes s.ontology.generation log
  facts : s.ontology.facts.map Fact.iris = (lastBindings log).filterMap Fact.irisOf?

namespace Agrees

variable {s : Session} {log : List Note}

theorem new (base : String) (sizes : ShapeSizes Float) : Agrees (.new base sizes) [] :=
  ⟨.nil 0, rfl⟩

/-- Every call keeps the invariant. -/
theorem step (h : Agrees s log) (c : Call) : Agrees (s.call c).1 (log ++ [(s.call c).2]) where
  counts := h.counts.step (loadStep_call s c).generation_cases (loadStep_call s c).ticket_eq
  facts := by
    rw [lastBindings_append]
    exact (loadStep_call s c).iris_eq h.facts

/-- Every run keeps the invariant. -/
theorem run (base : String) (sizes : ShapeSizes Float) (calls : List Call) :
    Agrees ((Session.new base sizes).run calls).1 ((Session.new base sizes).run calls).2 :=
  runLogged_induct (new base sizes) fun _ _ c _ h => h.step c

/-- Of the loads that were begun the latest can be finished, and the others are superseded. -/
theorem finishes_iff (h : Agrees s log) {ticket : LoadTicket} (issued : .begun ticket ∈ log)
    (results : Results) :
    ((∃ report, (s.finishLoad ticket (.ok results)).2 = .ok report) ↔ IsLatest log ticket) ∧
      ((s.finishLoad ticket (.ok results)).2 = .error .superseded ↔ ¬ IsLatest log ticket) := by
  rw [IsLatest, h.counts.latest_iff issued]
  by_cases hticket : ticket.generation = s.ontology.generation
  · rw [finishLoad_of_current hticket]
    exact ⟨iff_of_true ⟨_, rfl⟩ hticket, iff_of_false (by simp) (not_not.2 hticket)⟩
  · rw [finishLoad_of_stale hticket]
    exact ⟨iff_of_false (by simp) hticket, iff_of_true rfl hticket⟩

end Agrees

/-- A load that fails or was superseded leaves the whole session as it is. -/
theorem finishLoad_of_error {s : Session} {ticket : LoadTicket}
    {fetched : Except ServiceError Results} {error : SessionError}
    (failed : (s.finishLoad ticket fetched).2 = .error error) :
    (s.finishLoad ticket fetched).1 = s := by
  cases fetched with
  | error error => rfl
  | ok results =>
    by_cases hticket : ticket.generation = s.ontology.generation
    · rw [finishLoad_of_current hticket] at failed
      cases failed
    · rw [finishLoad_of_stale hticket]

/-! ## Stale loads -/

/-- Whatever is done to an ontology, and in whatever order: a ticket that was handed out applies if
    and only if no load was begun, no solutions were loaded and nothing was forgotten since; a
    ticket that does not apply changes neither the ontology nor the prefixes; and the content is
    that of the solutions applied last. In the same way, whatever is done to a session: an answer
    finishes its load if and only if no other load was begun since, and is superseded otherwise; a
    load that is not finished changes nothing; and the facts are those of the answer with which a
    load was finished last. -/
theorem stale_loads_never_win {calls : List Ontology.Call} {o : Ontology}
    {log : List Ontology.Note} (ran : Ontology.new.run calls = (o, log)) {base : String}
    {sizes : ShapeSizes Float} {steps : List Call} {s : Session} {history : List Note}
    (followed : (Session.new base sizes).run steps = (s, history)) :
    (∀ ticket, .begun ticket ∈ log → ∀ bindings p,
        ((o.applyLoad ticket bindings p).2.2.isSome ↔ Ontology.IsLatest log ticket)) ∧
      (∀ ticket bindings p, (o.applyLoad ticket bindings p).2.2 = none →
        o.applyLoad ticket bindings p = (o, p, none)) ∧
      (o = { Ontology.holding (Ontology.lastSource? log) with generation := o.generation } ∧
        o.facts.map Fact.iris = (Ontology.lastSource? log).elim [] fun source =>
          source.1.filterMap Fact.irisOf?) ∧
      (∀ ticket, .begun ticket ∈ history → ∀ results,
        ((∃ report, (s.finishLoad ticket (.ok results)).2 = .ok report) ↔
            IsLatest history ticket) ∧
          ((s.finishLoad ticket (.ok results)).2 = .error .superseded ↔
            ¬ IsLatest history ticket)) ∧
      (∀ ticket fetched error, (s.finishLoad ticket fetched).2 = .error error →
        (s.finishLoad ticket fetched).1 = s) ∧
      s.ontology.facts.map Fact.iris = (lastBindings history).filterMap Fact.irisOf? := by
  have ho : Ontology.Agrees o log := by
    have hrun := Ontology.Agrees.run calls
    rwa [ran] at hrun
  have hs : Agrees s history := by
    have hrun := Agrees.run base sizes steps
    rwa [followed] at hrun
  refine ⟨fun ticket issued => ho.applies_iff issued, fun ticket bindings p hnone => ?_,
    ⟨ho.content, ?_⟩, fun ticket issued => hs.finishes_iff issued,
    fun ticket fetched error => finishLoad_of_error, hs.facts⟩
  · by_cases hticket : ticket.generation = o.generation
    · rw [Ontology.applyLoad_of_current hticket] at hnone
      cases hnone
    · exact Ontology.applyLoad_of_stale hticket bindings p
  · rw [ho.content]
    exact Ontology.iris_holding _

/-- The answers to two overlapping loads. -/
def olderAnswer : List Binding :=
  [Fact.solution "http://old/visits" "http://old/Person" "http://old/Place"]

def newerAnswer : List Binding :=
  [Fact.solution "http://new/visits" "http://new/Person" "http://new/Place"]

/-- The newer answer comes first. -/
def overlappingTickets : Ontology × List Ontology.Note :=
  Ontology.new.run [.beginLoad, .beginLoad, .applyLoad ⟨2⟩ newerAnswer (.new "http://base/"),
    .applyLoad ⟨1⟩ olderAnswer (.new "http://base/")]

/-- The newer answer comes first; the canvas is changed and prefixes are asked for meanwhile. -/
def overlappingLoads : Session × List Note :=
  (Session.new "http://base/" defaultSizes).run [.beginLoad,
    .edit fun c => (c.createNode ⟨0, 0⟩ .uri ":Person").1, .beginLoad,
    .finishLoad ⟨2⟩ (.ok ⟨[], newerAnswer⟩), .beginPrefixes,
    .finishLoad ⟨1⟩ (.ok ⟨[], olderAnswer⟩)]

theorem stale_loads_never_win_overlapping :
    ¬ Ontology.IsLatest overlappingTickets.2 ⟨1⟩ ∧ Ontology.IsLatest overlappingTickets.2 ⟨2⟩ ∧
      overlappingTickets.1.facts.map Fact.iris =
        [("http://new/visits", "http://new/Person", "http://new/Place")] ∧
      (overlappingLoads.1.finishLoad ⟨1⟩ (.ok ⟨[], olderAnswer⟩)).2 = .error .superseded ∧
      (overlappingLoads.1.finishLoad ⟨1⟩ (.ok ⟨[], olderAnswer⟩)).1 = overlappingLoads.1 ∧
      ¬ IsLatest overlappingLoads.2 ⟨1⟩ ∧
      overlappingLoads.1.ontology.facts.map Fact.iris =
        [("http://new/visits", "http://new/Person", "http://new/Place")] := by
  have ran : Ontology.new.run _ = (overlappingTickets.1, overlappingTickets.2) := rfl
  have followed : (Session.new "http://base/" defaultSizes).run _ =
      (overlappingLoads.1, overlappingLoads.2) := rfl
  obtain ⟨happlies, -, ⟨-, hfacts⟩, hfinishes, hunchanged, hshown⟩ :=
    stale_loads_never_win ran followed
  have holder : .begun ⟨1⟩ ∈ overlappingTickets.2 :=
    List.mem_of_getElem? (show overlappingTickets.2[0]? = some (.begun ⟨1⟩) from rfl)
  have hnewer : .begun ⟨2⟩ ∈ overlappingTickets.2 :=
    List.mem_of_getElem? (show overlappingTickets.2[1]? = some (.begun ⟨2⟩) from rfl)
  have hbegun : .begun ⟨1⟩ ∈ overlappingLoads.2 :=
    List.mem_of_getElem? (show overlappingLoads.2[0]? = some (.begun ⟨1⟩) from rfl)
  have hsuperseded : (overlappingLoads.1.finishLoad ⟨1⟩ (.ok ⟨[], olderAnswer⟩)).2 =
      .error .superseded := rfl
  refine ⟨fun hlatest => ?_, (happlies ⟨2⟩ hnewer [] (.new "")).1 rfl, hfacts, hsuperseded,
    hunchanged _ _ _ hsuperseded, (hfinishes ⟨1⟩ hbegun _).2.1 hsuperseded, hshown⟩
  have happlied := (happlies ⟨1⟩ holder [] (.new "")).2 hlatest
  cases happlied

end QueryCanvas.Session
