/-
  QueryCanvas.Proofs.Canvas.Reachable

  The canvases that a user can be looking at: those that operations lead to
  from an empty canvas, with a subscriber that comes and reads at any time.

  `Reachable.induct` is the induction behind every statement about them. It
  asks about a change of the feed and about a step, and about nothing else.
-/

import QueryCanvas.Proofs.Canvas.Step
import QueryCanvas.Settings.Basic

namespace QueryCanvas.Canvas

variable {α : Type} [Scalar α]

/-- The canvases that allowed operations lead to. -/
inductive Reachable (allowed : Operation α → Prop) (sizes : ShapeSizes α) : Canvas α → Prop
  | new : Reachable allowed sizes (.new sizes)
  | perform {c : Canvas α} {operation : Operation α} (before : Reachable allowed sizes c)
      (permitted : allowed operation) : Reachable allowed sizes (c.perform operation).1
  | subscribe {c : Canvas α} (before : Reachable allowed sizes c) :
      Reachable allowed sizes c.subscribe
  | takeEvents {c : Canvas α} (before : Reachable allowed sizes c) :
      Reachable allowed sizes c.takeEvents.2

namespace Reachable

variable {allowed : Operation α → Prop} {sizes : ShapeSizes α} {c : Canvas α}

/-- What holds of the empty canvas, does not depend on the feed, and is kept by every step, holds
    of every reachable canvas. -/
theorem induct {P : Canvas α → Prop} (new : P (.new sizes))
    (feed : ∀ c feed, P c → P { c with feed := feed })
    (step : ∀ c c' operation, Reachable allowed sizes c → P c → allowed operation →
      Step c operation c' → P c')
    (reached : Reachable allowed sizes c) : P c := by
  induction reached with
  | new => exact new
  | perform before permitted ih => exact step _ _ _ before ih permitted (step_perform _ _)
  | subscribe before ih => exact feed _ _ ih
  | takeEvents before ih => exact feed _ _ ih

/-- A list of allowed operations leads from one reachable canvas to another. -/
theorem run (reached : Reachable allowed sizes c) {operations : List (Operation α)}
    (permitted : ∀ operation ∈ operations, allowed operation) :
    Reachable allowed sizes (c.run operations) := by
  induction operations generalizing c with
  | nil => exact reached
  | cons operation rest ih =>
    rw [Canvas.run, List.foldl_cons]
    exact ih (reached.perform (permitted operation (by simp)))
      fun o ho => permitted o (by simp [ho])

/-- No operation changes the sizes in which nodes are drawn. -/
theorem sizes_eq (reached : Reachable allowed sizes c) : c.sizes = sizes := by
  refine induct (P := fun c => c.sizes = sizes) rfl (fun _ _ h => h) ?_ reached
  rintro c c' operation - h - hstep
  induction hstep with
  | click _ ih => exact ih
  | _ => exact h

end Reachable

/-! ## What stays true from one canvas to the next -/

/-- A property that allowed operations keep, and the subscriber when it reads. -/
structure IsKept (allowed : Operation α → Prop) (P : Canvas α → Prop) : Prop where
  perform : ∀ {c : Canvas α} {operation : Operation α}, P c → allowed operation →
    P (c.perform operation).1
  takeEvents : ∀ {c : Canvas α}, P c → P c.takeEvents.2

namespace IsKept

variable {allowed allowed' : Operation α → Prop} {P : Canvas α → Prop}

theorem reachable (allowed : Operation α → Prop) (sizes : ShapeSizes α) :
    IsKept allowed (Reachable allowed sizes) := ⟨.perform, .takeEvents⟩

/-- With fewer operations, what is kept is still kept. -/
theorem mono (kept : IsKept allowed P)
    (fewer : ∀ operation, allowed' operation → allowed operation) : IsKept allowed' P :=
  ⟨fun h permitted => kept.perform h (fewer _ permitted), kept.takeEvents⟩

/-- What every operation of a list keeps, the list keeps. -/
theorem run (kept : IsKept allowed P) {c : Canvas α} (h : P c) {operations : List (Operation α)}
    (permitted : ∀ operation ∈ operations, allowed operation) : P (c.run operations) := by
  refine List.foldlRecOn (motive := P) operations _ h ?_
  intro c' hc' operation hmem
  exact kept.perform hc' (permitted operation hmem)

end IsKept

/-! ## A canvas for concrete cases -/

/-- A canvas with two nodes, an edge between them and another edge being drawn. -/
def sketch : Canvas Float :=
  (Canvas.new defaultSizes).run [
    .createNode ⟨0, 0⟩ .unboundVariable "?", .createNode ⟨300, 0⟩ .uri "ex:Person",
    .connect ⟨1⟩ ⟨2⟩ "ex:knows", .setMode .drawEdge, .click ⟨0, 0⟩ (some ⟨1⟩)]

theorem reachable_sketch : Reachable (fun _ => True) defaultSizes sketch :=
  Reachable.new.run fun _ _ => trivial

end QueryCanvas.Canvas
