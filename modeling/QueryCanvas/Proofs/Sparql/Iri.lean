/-
  QueryCanvas.Proofs.Sparql.Iri

  What an IRI in the diagram becomes in the query: kept if it is in angle
  brackets, written out if the text before its first colon is a known prefix,
  and put in angle brackets as it is otherwise. From this follows when it is
  read back as a given IRI, and which characters keep it from being one.
-/

import QueryCanvas.Proofs.Sparql.Grammar

namespace QueryCanvas.Sparql

open QueryCanvas.Text

variable {p : PrefixTable}

/-! ## The three cases -/

theorem renderIri_of_bracketed {content : String} (h : isBracketed content) :
    renderIri content p = content := by
  rw [renderIri, if_pos h]

theorem renderIri_of_known {content : String} {before behind : List Char} {expansion : String}
    (h : isBracketed content = false)
    (hcut : cutAtFirst? ':' content.toList = some (before, behind))
    (hknown : p.expansionOf? (String.ofList before) = some expansion) :
    renderIri content p = "<" ++ (expansion ++ String.ofList behind) ++ ">" := by
  rw [renderIri, if_neg (by simp [h])]
  simp [hcut, hknown]

theorem renderIri_of_unknown {content : String} (h : isBracketed content = false)
    (hunknown : ∀ before behind, cutAtFirst? ':' content.toList = some (before, behind) →
      p.expansionOf? (String.ofList before) = none) :
    renderIri content p = "<" ++ content ++ ">" := by
  rw [renderIri, if_neg (by simp [h])]
  cases hcut : cutAtFirst? ':' content.toList with
  | none => simp
  | some parts =>
    obtain ⟨before, behind⟩ := parts
    simp [hunknown before behind hcut]

/-! ## Angle brackets -/

theorem isBracketed_wrapped (s : String) : isBracketed ("<" ++ s ++ ">") = true := by
  have hopen : ("<" : String).toList = ['<'] := rfl
  have hclose : (">" : String).toList = ['>'] := rfl
  have hlast : ('<' :: (s.toList ++ ['>'])).getLast? = some '>' := by
    rw [← List.cons_append, List.getLast?_concat]
  simp [isBracketed, hopen, hclose, hlast]

/-- An IRI is always in angle brackets. -/
theorem isBracketed_renderIri (content : String) (p : PrefixTable) :
    isBracketed (renderIri content p) = true := by
  unfold renderIri
  split
  · assumption
  · exact isBracketed_wrapped _

theorem wrapped_inj {a b : String} : "<" ++ a ++ ">" = "<" ++ b ++ ">" ↔ a = b := by
  rw [String.append_left_inj, String.append_right_inj]

/-- Angle brackets make a text longer. -/
theorem wrapped_ne (s : String) : s ≠ "<" ++ s ++ ">" := by
  intro h
  have hlength := congrArg String.length h
  simp only [String.length_append] at hlength
  have hopen : ("<" : String).length = 1 := rfl
  omega

/-! ## Names with a prefix -/

theorem cut_name {short : String} (h : ':' ∉ short.toList) (localName : String) :
    cutAtFirst? ':' (short ++ ":" ++ localName).toList = some (short.toList, localName.toList) := by
  rw [cutAtFirst?_eq_some_iff]
  exact ⟨by simp, h⟩

/-- A name that ends like an IRI has a colon where the IRI has another character. -/
theorem name_ne_wrapped (short expansion localName : String) :
    short ++ ":" ++ localName ≠ "<" ++ (expansion ++ localName) ++ ">" := by
  -- seen from the end: if both ended in the same local name, it would consist of brackets only
  have hshift : ∀ m x y : List Char, m ++ ':' :: x ≠ '>' :: (m ++ y) := by
    intro m x y
    induction m with
    | nil => simp
    | cons c rest ih =>
      intro h
      rw [List.cons_append, List.cons_append, List.cons.injEq] at h
      obtain ⟨rfl, h⟩ := h
      exact ih h
  intro h
  have hlist := congrArg (fun s => s.toList.reverse) h
  have hcolon : (":" : String).toList = [':'] := rfl
  have hopen : ("<" : String).toList = ['<'] := rfl
  have hclose : (">" : String).toList = ['>'] := rfl
  simp only [String.toList_append, List.reverse_append, hcolon, hopen, hclose,
    List.reverse_cons, List.reverse_nil, List.nil_append, List.cons_append,
    List.append_assoc] at hlist
  exact hshift _ _ _ hlist

/-- A name with a prefix reads as an IRI of the namespace that owns the prefix, unless it looks
    like an IRI in angle brackets itself. -/
theorem renderIri_name_eq_iff {short owner : String} (hshort : ':' ∉ short.toList)
    (howner : p.expansionOf? short = some owner) (expansion localName : String) :
    renderIri (short ++ ":" ++ localName) p = "<" ++ (expansion ++ localName) ++ ">" ↔
      isBracketed (short ++ ":" ++ localName) = false ∧ owner = expansion := by
  cases hbracketed : isBracketed (short ++ ":" ++ localName) with
  | true =>
    rw [renderIri_of_bracketed hbracketed]
    simpa using name_ne_wrapped short expansion localName
  | false =>
    have howner' : p.expansionOf? (String.ofList short.toList) = some owner := by
      rwa [String.ofList_toList]
    rw [renderIri_of_known hbracketed (cut_name hshort localName) howner', String.ofList_toList,
      wrapped_inj, String.append_left_inj]
    simp

/-- An IRI in full reads as itself, unless it looks like one in angle brackets or the text before
    its first colon is a prefix of another namespace. -/
theorem renderIri_full_eq_iff (iri : String) :
    renderIri iri p = "<" ++ iri ++ ">" ↔
      isBracketed iri = false ∧
        ∀ before behind owner, cutAtFirst? ':' iri.toList = some (before, behind) →
          p.expansionOf? (String.ofList before) = some owner →
            owner = String.ofList before ++ ":" := by
  cases hbracketed : isBracketed iri with
  | true =>
    rw [renderIri_of_bracketed hbracketed]
    simpa using wrapped_ne iri
  | false =>
    cases hcut : cutAtFirst? ':' iri.toList with
    | none => simp [renderIri_of_unknown (p := p) hbracketed (by simp [hcut])]
    | some parts =>
      obtain ⟨before, behind⟩ := parts
      have hiri : iri = String.ofList before ++ ":" ++ String.ofList behind := by
        obtain ⟨hlist, -⟩ := cutAtFirst?_eq_some_iff.1 hcut
        rw [← String.toList_inj]
        simpa using hlist
      -- the text before the colon is a known prefix or not
      cases howner : p.expansionOf? (String.ofList before) with
      | none =>
        have hunknown := renderIri_of_unknown (p := p) hbracketed (by simp [hcut, howner])
        simp only [hunknown, true_and, true_iff]
        rintro b d owner ⟨⟩ hb
        rw [howner] at hb
        cases hb
      | some owner =>
        have hread : renderIri iri p = "<" ++ iri ++ ">" ↔ owner = String.ofList before ++ ":" := by
          rw [renderIri_of_known hbracketed hcut howner, wrapped_inj, hiri,
            String.append_left_inj]
        rw [hread]
        constructor
        · rintro rfl
          refine ⟨rfl, ?_⟩
          rintro b d o ⟨⟩ ho
          rw [howner] at ho
          exact (Option.some.inj ho).symm
        · rintro ⟨-, h⟩
          exact h before behind owner rfl howner

/-! ## Characters of IRIs -/

/-- What is written between the angle brackets is plain: the content, or the namespace of its prefix
    and the name behind its first colon. -/
structure IsCleanIri (p : PrefixTable) (content : String) : Prop where
  bracketed : isBracketed content = true → IsIriTerm content
  known : isBracketed content = false → ∀ before behind expansion,
    cutAtFirst? ':' content.toList = some (before, behind) →
      p.expansionOf? (String.ofList before) = some expansion →
        IsPlain expansion.toList ∧ IsPlain behind
  unknown : isBracketed content = false →
    (∀ before behind, cutAtFirst? ':' content.toList = some (before, behind) →
      p.expansionOf? (String.ofList before) = none) → IsPlain content.toList

theorem isIriTerm_wrapped_iff (s : String) : IsIriTerm ("<" ++ s ++ ">") ↔ IsPlain s.toList := by
  have hlist : ("<" ++ s ++ ">").toList = '<' :: (s.toList ++ ['>']) := by
    rw [String.toList_append, String.toList_append]
    rfl
  constructor
  · rintro ⟨iri, hiri, hplain⟩
    rw [hlist] at hiri
    obtain rfl := List.append_cancel_right (List.cons.inj hiri).2
    exact hplain
  · exact fun hplain => ⟨s.toList, hlist, hplain⟩

theorem isPlain_append_iff (a b : List Char) : IsPlain (a ++ b) ↔ IsPlain a ∧ IsPlain b :=
  List.forall_mem_append

/-- What stands for an IRI in the query is one exactly if its characters are clean. -/
theorem isIriTerm_renderIri_iff (content : String) (p : PrefixTable) :
    IsIriTerm (renderIri content p) ↔ IsCleanIri p content := by
  cases hbracketed : isBracketed content with
  | true =>
    have hyes : ¬ isBracketed content = false := by simp [hbracketed]
    rw [renderIri_of_bracketed hbracketed]
    exact ⟨fun h => ⟨fun _ => h, fun hno => absurd hno hyes, fun hno => absurd hno hyes⟩,
      fun h => h.bracketed hbracketed⟩
  | false =>
    have hno : isBracketed content = true → IsIriTerm content := by simp [hbracketed]
    -- a known prefix is looked for in the text before the first colon, if there is one
    by_cases hknown : ∃ before behind expansion,
        cutAtFirst? ':' content.toList = some (before, behind) ∧
          p.expansionOf? (String.ofList before) = some expansion
    · obtain ⟨before, behind, expansion, hcut, hexpansion⟩ := hknown
      rw [renderIri_of_known hbracketed hcut hexpansion, isIriTerm_wrapped_iff,
        String.toList_append, String.toList_ofList, isPlain_append_iff]
      refine ⟨fun h => ⟨hno, fun _ => ?_, fun _ hunknown => ?_⟩,
        fun h => h.known hbracketed before behind expansion hcut hexpansion⟩
      · intro before' behind' expansion' hcut' hexpansion'
        obtain ⟨rfl, rfl⟩ := Prod.mk.inj (Option.some.inj (hcut.symm.trans hcut'))
        obtain rfl := Option.some.inj (hexpansion.symm.trans hexpansion')
        exact h
      · rw [hunknown before behind hcut] at hexpansion
        cases hexpansion
    · have hunknown : ∀ before behind, cutAtFirst? ':' content.toList = some (before, behind) →
          p.expansionOf? (String.ofList before) = none := by
        intro before behind hcut
        rw [Option.eq_none_iff_forall_ne_some]
        intro expansion hexpansion
        exact hknown ⟨before, behind, expansion, hcut, hexpansion⟩
      rw [renderIri_of_unknown hbracketed hunknown, isIriTerm_wrapped_iff]
      refine ⟨fun h => ⟨hno, fun _ => ?_, fun _ _ => h⟩, fun h => h.unknown hbracketed hunknown⟩
      intro before behind expansion hcut hexpansion
      exact absurd ⟨before, behind, expansion, hcut, hexpansion⟩ hknown

end QueryCanvas.Sparql
