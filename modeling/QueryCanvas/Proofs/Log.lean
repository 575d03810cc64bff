/-
  QueryCanvas.Proofs.Log

  Runs that keep a log. Each call is noted, oldest first, with what has come of
  it, so that statements about a run can refer to what happened before.

  What has happened is outstanding until something ends it. `runLogged_induct`
  is the induction over runs, and `outstanding_append_singleton` says what one
  more entry of the log does.

  Where calls can break a property, `holds_throughout_iff` leads from what
  breaks it in one step to the runs in which it never fails.
-/

import Mathlib.Data.List.Induction

namespace QueryCanvas

variable {σ κ ι : Type}

/-! ## Runs -/

/-- Performs calls one after the other, and notes what has come of each. -/
def runLogged (perform : σ → κ → σ × ι) (start : σ) (calls : List κ) : σ × List ι :=
  calls.foldl (fun (s, log) call =>
    let (s, note) := perform s call
    (s, log ++ [note])) (start, [])

/-- What holds at the start with an empty log, and is kept by every call of the run, holds at the
    end. -/
theorem runLogged_induct {P : σ → List ι → Prop} {perform : σ → κ → σ × ι} {start : σ}
    {calls : List κ} (h : P start [])
    (step : ∀ s log, ∀ call ∈ calls, P s log →
      P (perform s call).1 (log ++ [(perform s call).2])) :
    P (runLogged perform start calls).1 (runLogged perform start calls).2 := by
  refine List.foldlRecOn (motive := fun acc : σ × List ι => P acc.1 acc.2) calls _ h ?_
  intro acc hacc call hcall
  exact step acc.1 acc.2 call hcall hacc

/-- One more call is performed where the calls before it have led. -/
theorem runLogged_append_singleton (perform : σ → κ → σ × ι) (start : σ) (calls : List κ)
    (call : κ) :
    (runLogged perform start (calls ++ [call])).1 =
      (perform (runLogged perform start calls).1 call).1 := by
  rw [runLogged, List.foldl_append]
  rfl

/-- A run goes on where it was interrupted. -/
theorem runLogged_append (perform : σ → κ → σ × ι) (start : σ) (before after : List κ) :
    (runLogged perform start (before ++ after)).1 =
      (runLogged perform (runLogged perform start before).1 after).1 := by
  induction after using List.reverseRecOn with
  | nil => rw [List.append_nil]; rfl
  | append_singleton after call ih =>
    rw [← List.append_assoc, runLogged_append_singleton, ih, runLogged_append_singleton]

/-! ## Properties that can be broken -/

/-- Let a property hold at the start, and let it be known which calls break it. It holds at every
    moment of a run if and only if none of the calls breaks it. -/
theorem holds_throughout_iff {P : σ → Prop} {breaks : σ → κ → Prop} {run : List κ → σ}
    (start : P (run []))
    (broken : ∀ before call, P (run before) →
      (P (run (before ++ [call])) ↔ ¬ breaks (run before) call)) (calls : List κ) :
    (∀ before, before <+: calls → P (run before)) ↔
      ∀ before call, before ++ [call] <+: calls → ¬ breaks (run before) call := by
  constructor
  · intro holds before call hcalls
    have hbefore : P (run before) := holds before ((List.prefix_append _ _).trans hcalls)
    exact (broken before call hbefore).1 (holds _ hcalls)
  · intro unbroken before
    -- from the first call on, which is the end of the list of calls before it
    induction before using List.reverseRecOn with
    | nil => exact fun _ => start
    | append_singleton before call ih =>
      intro hcalls
      have hbefore : P (run before) := ih ((List.prefix_append _ _).trans hcalls)
      exact (broken before call hbefore).2 (unbroken before call hcalls)

/-! ## What is outstanding -/

/-- `x` has happened, and since then nothing that ends it. -/
def Outstanding (ends : ι → Prop) (log : List ι) (x : ι) : Prop :=
  ∃ before after, log = before ++ x :: after ∧ ∀ i ∈ after, ¬ ends i

variable {ends : ι → Prop} {log : List ι} {i x : ι}

theorem not_outstanding_nil : ¬ Outstanding ends [] x := by
  rintro ⟨before, after, hlog, -⟩
  simp at hlog

/-- With one more entry in the log, that entry is outstanding, and so is everything that it does
    not end. -/
theorem outstanding_append_singleton :
    Outstanding ends (log ++ [i]) x ↔ i = x ∨ Outstanding ends log x ∧ ¬ ends i := by
  constructor
  · rintro ⟨before, after, hlog, hafter⟩
    rcases List.eq_nil_or_concat after with rfl | ⟨rest, last, rfl⟩
    · have hlast := List.append_inj_right' hlog rfl
      exact .inl (List.singleton_inj.1 hlast)
    · have hsame : log ++ [i] = (before ++ x :: rest) ++ [last] := by simpa using hlog
      obtain ⟨rfl, hlast⟩ := List.append_inj' hsame rfl
      obtain rfl := List.singleton_inj.1 hlast
      refine .inr ⟨⟨before, rest, rfl, fun j hj => ?_⟩, ?_⟩
      · exact hafter j (by simp [hj])
      · exact hafter i (by simp)
  · rintro (rfl | ⟨⟨before, after, rfl, hafter⟩, hends⟩)
    · exact ⟨log, [], rfl, by simp⟩
    · refine ⟨before, after ++ [i], by simp, fun j hj => ?_⟩
      rcases List.mem_append.1 hj with hj | hj
      · exact hafter j hj
      · rwa [List.mem_singleton.1 hj]

end QueryCanvas
