/-
  QueryCanvas.Text.Cut

  Cutting a text at one of its characters: after the last one of a class, or
  at the first occurrence of a given one. Nothing is lost by a cut, and the
  part beyond the last cut holds no further character of the class.
-/

namespace QueryCanvas.Text

/-! ## After the last character of a class -/

/-- Everything up to and with the last character that satisfies `p`, and the rest. -/
def cutAfterLast (p : Char → Bool) : List Char → List Char × List Char
  | [] => ([], [])
  | c :: cs =>
    match cutAfterLast p cs with
    | ([], rest) => if p c then ([c], rest) else ([], c :: rest)
    | (d :: ds, rest) => (c :: d :: ds, rest)

theorem cutAfterLast_append (p : Char → Bool) (cs : List Char) :
    (cutAfterLast p cs).1 ++ (cutAfterLast p cs).2 = cs := by
  induction cs with
  | nil => rfl
  | cons c cs ih =>
    rw [cutAfterLast]
    rcases h : cutAfterLast p cs with ⟨_ | ⟨d, ds⟩, rest⟩
    · rw [h] at ih
      by_cases hp : p c <;> simp_all
    · rw [h] at ih
      simp_all

/-- No character beyond the cut satisfies `p`. -/
theorem cutAfterLast_rest (p : Char → Bool) (cs : List Char) :
    ∀ c ∈ (cutAfterLast p cs).2, p c = false := by
  induction cs with
  | nil => simp [cutAfterLast]
  | cons c cs ih =>
    rw [cutAfterLast]
    rcases h : cutAfterLast p cs with ⟨_ | ⟨d, ds⟩, rest⟩
    · rw [h] at ih
      by_cases hp : p c <;> simp_all
    · rw [h] at ih
      exact ih

/-- The part before the cut is empty or ends in a character that satisfies `p`. -/
theorem cutAfterLast_last (p : Char → Bool) (cs : List Char) :
    (cutAfterLast p cs).1 = [] ∨ ∃ init c, (cutAfterLast p cs).1 = init ++ [c] ∧ p c = true := by
  induction cs with
  | nil => exact .inl rfl
  | cons c cs ih =>
    rw [cutAfterLast]
    rcases h : cutAfterLast p cs with ⟨_ | ⟨d, ds⟩, rest⟩
    · by_cases hp : p c
      · exact .inr ⟨[], c, by simp [hp], hp⟩
      · exact .inl (by simp [hp])
    · rw [h] at ih
      rcases ih with ih | ⟨init, e, he, hp⟩
      · simp at ih
      · exact .inr ⟨c :: init, e, congrArg (c :: ·) he, hp⟩

/-- What stands behind a text without characters of the class belongs to the rest. -/
theorem cutAfterLast_append_rest {p : Char → Bool} {behind : List Char}
    (h : ∀ c ∈ behind, p c = false) (before : List Char) :
    cutAfterLast p (before ++ behind) =
      ((cutAfterLast p before).1, (cutAfterLast p before).2 ++ behind) := by
  induction before with
  | nil =>
    induction behind with
    | nil => rfl
    | cons c cs ih =>
      rw [List.forall_mem_cons] at h
      have hcs : cutAfterLast p cs = ([], cs) := ih h.2
      simp [cutAfterLast, hcs, h.1]
  | cons c cs ih =>
    rw [List.cons_append, cutAfterLast, ih, cutAfterLast]
    rcases cutAfterLast p cs with ⟨_ | ⟨d, ds⟩, rest⟩
    · by_cases hp : p c <;> simp [hp]
    · rfl

/-- Nothing is left behind a character of the class at the end. -/
theorem cutAfterLast_concat {p : Char → Bool} {c : Char} (hc : p c = true) (before : List Char) :
    cutAfterLast p (before ++ [c]) = (before ++ [c], []) := by
  induction before with
  | nil => simp [cutAfterLast, hc]
  | cons b bs ih =>
    rw [List.cons_append, cutAfterLast, ih]
    cases bs <;> rfl

/-! ## At the first occurrence of a character -/

/-- The parts before and behind the first `sep`, if there is one. -/
def cutAtFirst? (sep : Char) : List Char → Option (List Char × List Char)
  | [] => none
  | c :: cs =>
    if c = sep then some ([], cs)
    else (cutAtFirst? sep cs).map fun parts => (c :: parts.1, parts.2)

theorem cutAtFirst?_eq_some_iff {sep : Char} {cs before behind : List Char} :
    cutAtFirst? sep cs = some (before, behind)
      ↔ cs = before ++ sep :: behind ∧ sep ∉ before := by
  induction cs generalizing before with
  | nil => simp [cutAtFirst?]
  | cons c cs ih =>
    by_cases h : c = sep
    · subst h
      cases before with
      | nil => simp [cutAtFirst?]
      | cons b bs => simp [cutAtFirst?]; intro hb; simp [hb]
    · cases before with
      | nil => simp [cutAtFirst?, h]
      | cons b bs =>
        simp only [cutAtFirst?, h, if_false, Option.map_eq_some_iff, Prod.mk.injEq,
          List.cons.injEq, List.cons_append, List.mem_cons, not_or]
        constructor
        · rintro ⟨⟨a, d⟩, hd, ⟨rfl, rfl⟩, rfl⟩
          obtain ⟨rfl, hs⟩ := ih.1 hd
          exact ⟨⟨rfl, rfl⟩, fun e => h e.symm, hs⟩
        · rintro ⟨⟨rfl, rfl⟩, -, hs⟩
          exact ⟨(bs, behind), ih.2 ⟨rfl, hs⟩, ⟨rfl, rfl⟩, rfl⟩

/-! ## Joining -/

/-- The texts with `sep` between neighbours. -/
def joinWith (sep : String) (parts : List String) : String := String.intercalate sep parts

end QueryCanvas.Text
