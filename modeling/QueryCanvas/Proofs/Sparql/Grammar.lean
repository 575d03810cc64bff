/-
  QueryCanvas.Proofs.Sparql.Grammar

  The terms that may stand in a query, as far as the query language goes beyond
  what the canvas looks at: variables, IRIs in angle brackets, and literals.
  No text is of two of these sorts, since their first characters differ.
-/

import QueryCanvas.Sparql.Select

namespace QueryCanvas.Sparql

open QueryCanvas.Text

/-! ## Terms -/

/-- True for letters, digits and underscores. Letters are those of ASCII, and in addition whatever
    `letter` says. -/
def isWordCharacter (letter : Char → Bool) (c : Char) : Bool :=
  c.isAlphanum || letter c || c = '_'

/-- A variable: a question mark and a name. -/
def IsVariableTerm (letter : Char → Bool) (s : String) : Prop :=
  ∃ name, s.toList = '?' :: name ∧ name ≠ [] ∧ ∀ c ∈ name, isWordCharacter letter c = true

/-- No white space and no angle brackets. -/
def IsPlain (s : List Char) : Prop := ∀ c ∈ s, isWhiteSpace c = false ∧ c ≠ '<' ∧ c ≠ '>'

/-- An IRI: angle brackets around a plain text. -/
def IsIriTerm (s : String) : Prop := ∃ iri, s.toList = '<' :: (iri ++ ['>']) ∧ IsPlain iri

/-- What may stand for a property. -/
def IsPropertyTerm (letter : Char → Bool) (s : String) : Prop :=
  IsVariableTerm letter s ∨ IsIriTerm s

/-- What may stand for a subject or an object. -/
def IsTerm (letter : Char → Bool) (s : String) : Prop :=
  IsVariableTerm letter s ∨ IsIriTerm s ∨ isLiteral s = true

/-- A query as the query language wants it: with outputs, all of them variables, and with a term
    in each place of each pattern. -/
structure Select.IsWellFormed (letter : Char → Bool) (q : Select) : Prop where
  has_output : q.outputs ≠ []
  outputs : ∀ output ∈ q.outputs, IsVariableTerm letter output
  patterns : ∀ pattern ∈ q.patterns,
    IsTerm letter pattern.subject ∧ IsPropertyTerm letter pattern.property ∧
      IsTerm letter pattern.object

/-! ## Sorts of terms exclude each other -/

/-- A literal starts with a quote, a sign, a point, a digit, or like one of the booleans. -/
theorem isLiteral_eq_false {s : String} {c : Char} {cs : List Char} (h : s.toList = c :: cs)
    (hquote : c ≠ '"' ∧ c ≠ '\'') (hword : c ≠ 't' ∧ c ≠ 'f') (hsign : c ≠ '+' ∧ c ≠ '-')
    (hpoint : c ≠ '.') (hdigit : isDecimalDigit c = false) : isLiteral s = false := by
  have htrue : s ≠ "true" := by
    rintro rfl
    exact hword.1 (List.cons.inj h).1.symm
  have hfalse : s ≠ "false" := by
    rintro rfl
    exact hword.2 (List.cons.inj h).1.symm
  have hunsigned : dropSign (c :: cs) = c :: cs := by
    unfold dropSign
    split <;> simp_all
  have hnumber : isNumber (c :: cs) = false := by
    rw [isNumber, hunsigned, isUnsignedNumber, List.takeWhile_cons_of_neg (by simp [hdigit]),
      List.dropWhile_cons_of_neg (by simp [hdigit])]
    split <;> simp_all
  simp [isLiteral, h, isQuoted, hquote, htrue, hfalse, hnumber]

theorem isLiteral_empty : isLiteral "" = false := rfl

theorem isLiteral_of_question {s : String} {cs : List Char} (h : s.toList = '?' :: cs) :
    isLiteral s = false :=
  isLiteral_eq_false h (by decide) (by decide) (by decide) (by decide) (by decide)

theorem isLiteral_of_bracketed {s : String} (h : isBracketed s) : isLiteral s = false := by
  cases hs : s.toList with
  | nil => simp [isBracketed, hs] at h
  | cons c cs =>
    obtain rfl : c = '<' := by
      simp only [isBracketed, hs, List.head?_cons, Bool.and_eq_true, decide_eq_true_eq,
        Option.some.injEq] at h
      exact h.1
    exact isLiteral_eq_false hs (by decide) (by decide) (by decide) (by decide) (by decide)

theorem not_isIriTerm_of_question {s : String} {cs : List Char} (h : s.toList = '?' :: cs) :
    ¬ IsIriTerm s := by
  rintro ⟨iri, hiri, -⟩
  rw [h] at hiri
  exact absurd (List.cons.inj hiri).1 (by decide)

theorem not_isVariableTerm_of_bracketed {letter : Char → Bool} {s : String} (h : isBracketed s) :
    ¬ IsVariableTerm letter s := by
  rintro ⟨name, hname, -⟩
  simp [isBracketed, hname] at h

theorem exists_of_isNamedVariable {s : String} (h : isNamedVariable s) :
    ∃ name, s.toList = '?' :: name ∧ name ≠ [] := by
  unfold isNamedVariable at h
  split at h
  · next c cs hs => exact ⟨c :: cs, hs, by simp⟩
  · cases h

theorem IsVariableTerm.isNamedVariable {letter : Char → Bool} {s : String}
    (h : IsVariableTerm letter s) : isNamedVariable s = true := by
  obtain ⟨name, hname, hne, -⟩ := h
  cases name with
  | nil => exact absurd rfl hne
  | cons c cs => simp only [Sparql.isNamedVariable, hname]

/-- A text that looks like a variable is a term only as one. -/
theorem isTerm_of_isNamedVariable {letter : Char → Bool} {s : String} (h : isNamedVariable s) :
    IsTerm letter s ↔ IsVariableTerm letter s := by
  obtain ⟨name, hname, -⟩ := exists_of_isNamedVariable h
  simp [IsTerm, not_isIriTerm_of_question hname, isLiteral_of_question hname]

theorem isPropertyTerm_of_isNamedVariable {letter : Char → Bool} {s : String}
    (h : isNamedVariable s) : IsPropertyTerm letter s ↔ IsVariableTerm letter s := by
  obtain ⟨name, hname, -⟩ := exists_of_isNamedVariable h
  simp [IsPropertyTerm, not_isIriTerm_of_question hname]

/-- A text in angle brackets is a term only as an IRI. -/
theorem isTerm_of_bracketed {letter : Char → Bool} {s : String} (h : isBracketed s) :
    IsTerm letter s ↔ IsIriTerm s := by
  simp [IsTerm, not_isVariableTerm_of_bracketed h, isLiteral_of_bracketed h]

theorem isPropertyTerm_of_bracketed {letter : Char → Bool} {s : String} (h : isBracketed s) :
    IsPropertyTerm letter s ↔ IsIriTerm s := by
  simp [IsPropertyTerm, not_isVariableTerm_of_bracketed h]

theorem not_isTerm_empty {letter : Char → Bool} : ¬ IsTerm letter "" := by
  rintro (⟨name, hname, -⟩ | ⟨iri, hiri, -⟩ | hliteral)
  · simp at hname
  · simp at hiri
  · rw [isLiteral_empty] at hliteral
    cases hliteral

/-! ## Variables made up from numbers -/

/-- The name of an anonymous element is a variable. -/
theorem isVariableTerm_numbered (letter : Char → Bool) (role : String)
    (hne : role.toList ≠ []) (hrole : role.toList.all Char.isAlphanum = true) (index : Nat) :
    IsVariableTerm letter ("?" ++ role ++ toString index) := by
  have hquestion : ("?" : String).toList = ['?'] := rfl
  have hdigits : ∀ c ∈ (toString index).toList, c.isAlphanum = true := by
    intro c hc
    have hdigit : c.isDigit = true := by
      rw [Nat.toString_eq_ofList_toDigits, String.toList_ofList] at hc
      exact Nat.isDigit_of_mem_toDigits (by decide) (by decide) hc
    simp [Char.isAlphanum, hdigit]
  -- the name is the role and the digits behind it
  refine ⟨role.toList ++ (toString index).toList, ?_, by simp [hne], fun c hc => ?_⟩
  · simp [hquestion]
  · have halphanum : c.isAlphanum = true := by
      rcases List.mem_append.1 hc with hc | hc
      · exact List.all_eq_true.1 hrole c hc
      · exact hdigits c hc
    simp [isWordCharacter, halphanum]

end QueryCanvas.Sparql
