/-
  QueryCanvas.Proofs.Text.Scan

  What readers have in common.

  `Repeats` follows a reader from one value to the next, so that what `many`
  reads can be put together piece by piece. A `Steady` reader does not mind what
  stands behind its text if that begins with a character that it stops at. What
  all values of a reader have in common is said by `Yields`.
-/

import Mathlib.Data.List.TakeWhile
import QueryCanvas.Text.Scan

namespace QueryCanvas.Text.Scan

variable {β γ : Type}

/-! ## One reader after another, or instead of it -/

section Sequences

variable {r q : Scan β} {f : β → Scan γ} {cs rest : List Char} {b : β}

theorem bind_of_read (h : r cs = some (b, rest)) : (r >>= f) cs = f b rest := by
  show (r cs).bind (fun (b, rest) => f b rest) = _
  rw [h]
  rfl

theorem bind_of_failed (h : r cs = none) : (r >>= f) cs = none := by
  show (r cs).bind (fun (b, rest) => f b rest) = _
  rw [h]
  rfl

theorem orElse_of_read (h : r cs = some (b, rest)) : (r <|> q) cs = some (b, rest) := by
  show (r cs <|> q cs) = _
  rw [h]
  rfl

theorem orElse_of_failed (h : r cs = none) : (r <|> q) cs = q cs := by
  show (r cs <|> q cs) = _
  rw [h]
  rfl

theorem succeeds_of_failed (h : r cs = none) : succeeds r cs = some (false, cs) := by
  have hnone : optional r cs = some (none, cs) := by simp [optional, h]
  rw [succeeds, bind_of_read hnone]
  rfl

theorem text_of_ne {s : String} {w c : Char} {ws : List Char} (hs : s.toList = w :: ws)
    (h : w ≠ c) : text s (c :: cs) = none := by
  rw [text, hs]
  exact if_neg h

end Sequences

/-! ## Reading several times -/

/-- From `cs` on, the reader reads the given values one after the other, and `rest` is left. -/
inductive Repeats (r : Scan β) : List Char → List β → List Char → Prop
  | none {cs : List Char} : Repeats r cs [] cs
  | more {cs next rest : List Char} {b : β} {bs : List β} (read : r cs = some (b, next))
      (shorter : next.length < cs.length) (further : Repeats r next bs rest) :
      Repeats r cs (b :: bs) rest

namespace Repeats

variable {r : Scan β} {cs next rest : List Char} {bs ds : List β}

theorem one {b : β} (read : r cs = some (b, rest)) (shorter : rest.length < cs.length) :
    Repeats r cs [b] rest :=
  .more read shorter .none

theorem append (first : Repeats r cs bs next) (second : Repeats r next ds rest) :
    Repeats r cs (bs ++ ds) rest := by
  induction first with
  | none => exact second
  | more read shorter _ ih => exact .more read shorter (ih second)

theorem manyWithin (h : Repeats r cs bs rest) (stops : rest = [] ∨ r rest = Option.none)
    {budget : List Char} (enough : cs.length ≤ budget.length) :
    manyWithin r budget cs = some (bs, rest) := by
  -- every value takes a character at least, so that the budget lasts as long as the text
  induction h generalizing budget with
  | none =>
    rename_i cs
    rcases cs with - | ⟨c, cs⟩
    · rw [Scan.manyWithin]
    · rcases budget with - | ⟨d, budget⟩
      · cases enough
      · rw [Scan.manyWithin, stops.resolve_left (by simp)]
        simp
  | more read shorter _ ih =>
    rename_i cs next rest b bs _
    rcases cs with - | ⟨c, cs⟩
    · cases shorter
    rcases budget with - | ⟨d, budget⟩
    · cases enough
    · simp only [List.length_cons] at shorter enough
      rw [Scan.manyWithin, read]
      · have hnext := @ih stops budget (by omega)
        simp only [hnext, Option.map_some]
      · simp

/-- The values are all that can be read if the reader fails on what is left. -/
theorem many (h : Repeats r cs bs rest) (stops : rest = [] ∨ r rest = Option.none) :
    many r cs = some (bs, rest) :=
  h.manyWithin stops le_rfl

end Repeats

/-! ## What stands behind -/

/-- The reader reads the same from a text behind which more stands, up to a character at which it
    stops. -/
def Steady (stop : Char → Bool) (r : Scan β) : Prop :=
  ∀ cs behind, (∀ c ∈ behind.head?, stop c = true) →
    r (cs ++ behind) = (r cs).map fun (b, rest) => (b, rest ++ behind)

section Steady

variable {stop p : Char → Bool}

theorem steady_pure (b : β) : Steady stop (pure b : Scan β) := fun _ _ _ => rfl

theorem Steady.bind {r : Scan β} {f : β → Scan γ} (hr : Steady stop r)
    (hf : ∀ b, Steady stop (f b)) : Steady stop (r >>= f) := by
  intro cs behind hbehind
  show (r (cs ++ behind)).bind (fun (b, rest) => f b rest) =
    ((r cs).bind fun (b, rest) => f b rest).map _
  rw [hr cs behind hbehind]
  rcases r cs with - | ⟨b, rest⟩
  · rfl
  · exact hf b rest behind hbehind

theorem Steady.map {r : Scan β} (hr : Steady stop r) (f : β → γ) : Steady stop (f <$> r) :=
  hr.bind fun b => steady_pure (f b)

theorem Steady.optional {r : Scan β} (hr : Steady stop r) : Steady stop (optional r) := by
  intro cs behind hbehind
  simp only [Scan.optional, hr cs behind hbehind]
  rcases r cs with - | ⟨b, rest⟩ <;> rfl

theorem Steady.succeeds {r : Scan β} (hr : Steady stop r) : Steady stop (succeeds r) :=
  hr.optional.bind fun _ => steady_pure _

theorem steady_char (h : ∀ c, stop c = true → p c = false) : Steady stop (char p) := by
  intro cs behind hbehind
  rcases cs with - | ⟨c, cs⟩
  · rcases behind with - | ⟨d, behind⟩
    · rfl
    · simp [char, h d (hbehind d rfl)]
  · simp only [List.cons_append, char]
    split <;> rfl

theorem steady_exactly {ws : List Char} (h : ∀ c ∈ ws, stop c = false) :
    Steady stop (exactly ws) := by
  induction ws with
  | nil => exact fun _ _ _ => rfl
  | cons w ws ih =>
    rw [List.forall_mem_cons] at h
    intro cs behind hbehind
    rcases cs with - | ⟨c, cs⟩
    · rcases behind with - | ⟨d, behind⟩
      · rfl
      · have hd : w ≠ d := fun hwd => by
          have hstop := hbehind d rfl
          rw [← hwd, h.1] at hstop
          cases hstop
        simp [exactly, hd]
    · simp only [List.cons_append, exactly]
      split
      · exact ih h.2 cs behind hbehind
      · rfl

theorem steady_text {s : String} (h : ∀ c ∈ s.toList, stop c = false) : Steady stop (text s) :=
  steady_exactly h

theorem steady_run1 (h : ∀ c, stop c = true → p c = false) : Steady stop (run1 p) := by
  intro cs behind hbehind
  have hbehindRun : behind.takeWhile p = [] ∧ behind.dropWhile p = behind := by
    rcases behind with - | ⟨d, behind⟩
    · simp
    · simp [h d (hbehind d rfl)]
  have hrun : (cs ++ behind).takeWhile p = cs.takeWhile p ∧
      (cs ++ behind).dropWhile p = cs.dropWhile p ++ behind := by
    induction cs with
    | nil => simpa using hbehindRun
    | cons c cs ih =>
      cases hc : p c <;> simp [hc, ih]
  simp only [run1, hrun.1, hrun.2]
  split <;> rfl

end Steady

/-! ## What all values have in common -/

/-- Every value of the reader satisfies `P`. -/
def Yields (r : Scan β) (P : β → Prop) : Prop := ∀ cs b rest, r cs = some (b, rest) → P b

section Yields

variable {P : β → Prop} {Q : γ → Prop}

theorem yields_pure {b : β} (h : P b) : Yields (pure b : Scan β) P := by
  intro cs b' rest hread
  cases hread
  exact h

theorem Yields.bind {r : Scan β} {f : β → Scan γ} (hr : Yields r P)
    (hf : ∀ b, P b → Yields (f b) Q) : Yields (r >>= f) Q := by
  intro cs c rest hread
  obtain ⟨⟨b, next⟩, hb, hc⟩ := Option.bind_eq_some_iff.1 hread
  exact hf b (hr cs b next hb) next c rest hc

/-- What is read before does not count if the last values satisfy `Q` in any case. -/
theorem yields_of_last {r : Scan β} {f : β → Scan γ} (hf : ∀ b, Yields (f b) Q) :
    Yields (r >>= f) Q :=
  Yields.bind (P := fun _ => True) (fun _ _ _ _ => trivial) fun b _ => hf b

theorem Yields.orElse {r q : Scan β} (hr : Yields r P) (hq : Yields q P) :
    Yields (r <|> q) P := by
  intro cs b rest hread
  rcases hfirst : r cs with - | ⟨first, next⟩
  · rw [orElse_of_failed hfirst] at hread
    exact hq cs b rest hread
  · cases (orElse_of_read hfirst).symm.trans hread
    exact hr cs b rest hfirst

theorem Yields.many {r : Scan β} (hr : Yields r P) : Yields (many r) (∀ b ∈ ·, P b) := by
  have hwithin : ∀ budget, Yields (manyWithin r budget) (∀ b ∈ ·, P b) := by
    intro budget
    induction budget with
    | nil =>
      intro cs bs rest hread
      cases cs <;> cases hread <;> simp
    | cons d budget ih =>
      intro cs bs rest hread
      rcases cs with - | ⟨c, cs⟩
      · cases hread
        simp
      · rw [manyWithin] at hread
        · split at hread
          · cases hread
            simp
          · next b next hb =>
            obtain ⟨⟨ds, rest⟩, hds, hsame⟩ := Option.map_eq_some_iff.1 hread
            cases hsame
            exact List.forall_mem_cons.2 ⟨hr _ _ _ hb, ih _ _ _ hds⟩
        · simp
  exact fun cs => hwithin cs cs

end Yields

end QueryCanvas.Text.Scan
