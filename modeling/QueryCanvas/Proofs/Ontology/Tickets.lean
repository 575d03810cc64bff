/-
  QueryCanvas.Proofs.Ontology.Tickets

  Loads of the ontology may overlap and end in any order. Only the load begun
  last counts, and whatever came before leaves no trace.

  The guard is one counter, advanced by every call that makes tickets stale, so
  a ticket has its number exactly if it is the latest (`Counts`). `Agrees` adds
  that the content is that of the last load. A call goes in one of five ways
  (`Step`).
-/

import QueryCanvas.Proofs.Log
import QueryCanvas.Proofs.Ontology.Index

namespace QueryCanvas

/-! ## Numbered tickets -/

section Counter

variable {ι : Type}

/-- A counter numbers the tickets in a log: no ticket has a higher number, and the number of the
    counter is that of the latest ticket unless something has ended its load. -/
structure Counts (begun : LoadTicket → ι) (ends : ι → Prop) (count : Nat) (log : List ι) :
    Prop where
  issued : ∀ ticket, begun ticket ∈ log → ticket.generation ≤ count
  outstanding_iff : ∀ ticket, Outstanding ends log (begun ticket) ↔
    begun ticket ∈ log ∧ ticket.generation = count

namespace Counts

variable {begun : LoadTicket → ι} {ends : ι → Prop} {count count' : Nat} {log : List ι} {i : ι}

theorem nil (count : Nat) : Counts begun ends count [] where
  issued ticket h := by simp at h
  outstanding_iff ticket := iff_of_false not_outstanding_nil (by simp)

theorem latest_iff (h : Counts begun ends count log) {ticket : LoadTicket}
    (issued : begun ticket ∈ log) :
    Outstanding ends log (begun ticket) ↔ ticket.generation = count := by
  rw [h.outstanding_iff, and_iff_right issued]

/-- The counter has to advance exactly with what ends loads, and to number new tickets. -/
theorem step (h : Counts begun ends count log)
    (advance : ends i ∧ count' = count + 1 ∨ ¬ ends i ∧ count' = count)
    (new : ∀ ticket, i = begun ticket → ends i ∧ ticket.generation = count') :
    Counts begun ends count' (log ++ [i]) where
  issued ticket hmem := by
    rw [List.mem_append, List.mem_singleton] at hmem
    rcases hmem with hold | hnow
    · have hle := h.issued ticket hold
      omega
    · exact Nat.le_of_eq (new ticket hnow.symm).2
  outstanding_iff ticket := by
    rw [outstanding_append_singleton, List.mem_append, List.mem_singleton]
    rcases advance with ⟨hends, hnext⟩ | ⟨hkeeps, hsame⟩
    -- of all tickets only a new one can have the number that the counter has now
    · constructor
      · rintro (hnow | ⟨-, hnot⟩)
        · exact ⟨.inr hnow.symm, (new ticket hnow).2⟩
        · exact absurd hends hnot
      · rintro ⟨hold | hnow, hnumber⟩
        · have hle := h.issued ticket hold
          omega
        · exact .inl hnow.symm
    · have hother : i ≠ begun ticket := fun hnow => hkeeps (new ticket hnow).1
      have hold := h.outstanding_iff ticket
      simp [hother, hother.symm, hkeeps, hsame, hold]

end Counts

end Counter

namespace Ontology

/-! ## Runs -/

/-- The calls that change what is loaded. A ticket may be used at any time and any number of
    times. -/
inductive Call
  | beginLoad
  | applyLoad (ticket : LoadTicket) (bindings : List Binding) (prefixes : PrefixTable)
  | load (bindings : List Binding) (prefixes : PrefixTable)
  | clear

/-- What is noted of a call. -/
inductive Note
  | begun (ticket : LoadTicket)
  /-- A ticket was taken back, and the facts were replaced. -/
  | applied (bindings : List Binding) (prefixes : PrefixTable)
  /-- A ticket was taken back that did not count. -/
  | refused
  | loaded (bindings : List Binding) (prefixes : PrefixTable)
  | cleared

/-- Performs a call and notes what has come of it. -/
def perform (o : Ontology) : Call → Ontology × Note
  | .beginLoad => (o.beginLoad.1, .begun o.beginLoad.2)
  | .applyLoad ticket bindings prefixes =>
    match o.applyLoad ticket bindings prefixes with
    | (o, _, some _) => (o, .applied bindings prefixes)
    | (o, _, none) => (o, .refused)
  | .load bindings prefixes => ((o.load bindings prefixes).1, .loaded bindings prefixes)
  | .clear => (o.clear, .cleared)

/-- Performs calls one after the other. -/
def run (o : Ontology) (calls : List Call) : Ontology × List Note := runLogged perform o calls

namespace Note

/-- True for what makes all earlier tickets stale. -/
def Supersedes : Note → Prop
  | begun _ | loaded _ _ | cleared => True
  | applied _ _ | refused => False

/-- The solutions that the facts are read from, with the prefixes known at that time, given those
    before. -/
def source? (before : Option (List Binding × PrefixTable)) :
    Note → Option (List Binding × PrefixTable)
  | applied bindings prefixes | loaded bindings prefixes => some (bindings, prefixes)
  | cleared => none
  | begun _ | refused => before

end Note

/-- The load of a ticket was begun, and nothing has made it stale since. -/
def IsLatest (log : List Note) (ticket : LoadTicket) : Prop :=
  Outstanding Note.Supersedes log (.begun ticket)

/-- The solutions that were loaded last, unless the facts were forgotten since. -/
def lastSource? (log : List Note) : Option (List Binding × PrefixTable) :=
  log.foldl Note.source? none

@[simp] theorem lastSource?_append (log : List Note) (note : Note) :
    lastSource? (log ++ [note]) = note.source? (lastSource? log) := by
  simp [lastSource?]

/-- An ontology into which nothing else was ever loaded. -/
def holding : Option (List Binding × PrefixTable) → Ontology
  | none => .new
  | some (bindings, prefixes) => (Ontology.new.index bindings prefixes).1

/-- The facts of an ontology into which nothing else was loaded are those of the solutions. -/
theorem iris_holding (source : Option (List Binding × PrefixTable)) :
    (holding source).facts.map Fact.iris =
      source.elim [] fun source => source.1.filterMap Fact.irisOf? := by
  cases source with
  | none => rfl
  | some source => exact iris_index .new source.1 source.2

/-! ## What a call does -/

/-- The ways in which a call can go. -/
inductive Step (o : Ontology) : Call → Ontology → Note → Prop
  | begun : Step o .beginLoad { o with generation := o.generation + 1 } (.begun ⟨o.generation + 1⟩)
  | applied {ticket : LoadTicket} (current : ticket.generation = o.generation)
      (bindings : List Binding) (prefixes : PrefixTable) :
      Step o (.applyLoad ticket bindings prefixes)
        { holding (some (bindings, prefixes)) with generation := o.generation }
        (.applied bindings prefixes)
  | refused {ticket : LoadTicket} (stale : ticket.generation ≠ o.generation)
      (bindings : List Binding) (prefixes : PrefixTable) :
      Step o (.applyLoad ticket bindings prefixes) o .refused
  | loaded (bindings : List Binding) (prefixes : PrefixTable) :
      Step o (.load bindings prefixes)
        { holding (some (bindings, prefixes)) with generation := o.generation + 1 }
        (.loaded bindings prefixes)
  | cleared : Step o .clear { holding none with generation := o.generation + 1 } .cleared

theorem applyLoad_of_current {o : Ontology} {ticket : LoadTicket}
    (current : ticket.generation = o.generation) (bindings : List Binding) (p : PrefixTable) :
    o.applyLoad ticket bindings p =
      ((o.index bindings p).1, (o.index bindings p).2.1, some (o.index bindings p).2.2) :=
  if_pos current

theorem applyLoad_of_stale {o : Ontology} {ticket : LoadTicket}
    (stale : ticket.generation ≠ o.generation) (bindings : List Binding) (p : PrefixTable) :
    o.applyLoad ticket bindings p = (o, p, none) :=
  if_neg stale

theorem step_perform (o : Ontology) (call : Call) :
    Step o call (o.perform call).1 (o.perform call).2 := by
  cases call with
  | beginLoad => exact .begun
  | applyLoad ticket bindings p =>
    by_cases h : ticket.generation = o.generation
    · rw [perform, applyLoad_of_current h, index_eq]
      exact .applied h bindings p
    · rw [perform, applyLoad_of_stale h]
      exact .refused h bindings p
  | load bindings p =>
    rw [perform, load, index_eq]
    exact .loaded bindings p
  | clear => exact .cleared

namespace Step

variable {o o' : Ontology} {call : Call} {note : Note}

/-- The counter advances exactly with the calls that make tickets stale. -/
theorem generation_cases (hstep : Step o call o' note) :
    note.Supersedes ∧ o'.generation = o.generation + 1 ∨
      ¬ note.Supersedes ∧ o'.generation = o.generation := by
  cases hstep with
  | begun => exact .inl ⟨trivial, rfl⟩
  | applied current bindings p => exact .inr ⟨id, rfl⟩
  | refused stale bindings p => exact .inr ⟨id, rfl⟩
  | loaded bindings p => exact .inl ⟨trivial, rfl⟩
  | cleared => exact .inl ⟨trivial, rfl⟩

/-- A new ticket has the number of the counter, and makes earlier tickets stale. -/
theorem ticket_eq (hstep : Step o call o' note) (ticket : LoadTicket)
    (hnew : note = .begun ticket) :
    note.Supersedes ∧ ticket.generation = o'.generation := by
  subst hnew
  cases hstep
  exact ⟨trivial, rfl⟩

/-- A call replaces the whole content or keeps it. -/
theorem content (hstep : Step o call o' note) {source : Option (List Binding × PrefixTable)}
    (h : o = { holding source with generation := o.generation }) :
    o' = { holding (note.source? source) with generation := o'.generation } := by
  cases hstep with
  | begun => rw [Note.source?, h]
  | refused stale bindings p => exact h
  -- the other calls start from nothing, so what was there before does not matter
  | _ => rfl

end Step

/-! ## The invariant -/

/-- The counter and the content agree with the log of what has happened. -/
structure Agrees (o : Ontology) (log : List Note) : Prop where
  counts : Counts Note.begun Note.Supersedes o.generation log
  content : o = { holding (lastSource? log) with generation := o.generation }

namespace Agrees

variable {o o' : Ontology} {log : List Note} {call : Call} {note : Note}

theorem new : Agrees .new [] := ⟨.nil 0, rfl⟩

/-- Every call keeps the invariant. -/
theorem step (h : Agrees o log) (hstep : Step o call o' note) : Agrees o' (log ++ [note]) where
  counts := h.counts.step hstep.generation_cases hstep.ticket_eq
  content := by
    rw [lastSource?_append]
    exact hstep.content h.content

/-- Every run keeps the invariant. -/
theorem run (calls : List Call) :
    Agrees (Ontology.new.run calls).1 (Ontology.new.run calls).2 :=
  runLogged_induct new fun o _ call _ h => h.step (step_perform o call)

/-- A ticket that was handed out still counts exactly if it is the latest. -/
theorem applies_iff (h : Agrees o log) {ticket : LoadTicket} (issued : .begun ticket ∈ log)
    (bindings : List Binding) (p : PrefixTable) :
    (o.applyLoad ticket bindings p).2.2.isSome ↔ IsLatest log ticket := by
  rw [IsLatest, h.counts.latest_iff issued]
  by_cases hticket : ticket.generation = o.generation
  · rw [applyLoad_of_current hticket]
    exact iff_of_true rfl hticket
  · rw [applyLoad_of_stale hticket]
    exact iff_of_false (by simp) hticket

end Agrees

end Ontology

end QueryCanvas
