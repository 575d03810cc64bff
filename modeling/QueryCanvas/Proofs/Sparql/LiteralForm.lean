/-
  QueryCanvas.Proofs.Sparql.LiteralForm

  The grammar of literals, and that exactly its texts are taken for literals.

  The reader looks at each character once and never backs up. What makes this
  enough is that every part of the grammar ends where the next character cannot
  belong to it: a body ends at its quote (`afterClosingQuote_eq_some_iff`), a run
  of letters or digits at the first other character (`takeWhile_run`), and no
  number has a second sign (`dropSign_append`). Each part of the reader is tied
  to its part of the grammar by one iff.

  What a node stands for follows from its content by rules of which the first
  that applies counts; `Classifies` spells them out on top of the grammar.
-/

import Mathlib.Data.List.TakeWhile
import QueryCanvas.Diagram.Kind

namespace QueryCanvas

namespace Sparql

open QueryCanvas.Text

/-! ## The grammar -/

/-- One or more characters of a class. -/
def Run (p : Char → Bool) (cs : List Char) : Prop := cs ≠ [] ∧ ∀ c ∈ cs, p c = true

/-- What may stand between two quotes: any characters but the quote and the backslash, line ends
    included, and backslashes with the character that they escape, which is no line end. -/
inductive Body (quote : Char) : List Char → Prop
  | nil : Body quote []
  | plain {c : Char} {cs : List Char} (other : c ≠ quote) (bare : c ≠ '\\')
      (rest : Body quote cs) : Body quote (c :: cs)
  | escaped {c : Char} {cs : List Char} (sameLine : c ≠ '\n') (rest : Body quote cs) :
      Body quote ('\\' :: c :: cs)

/-- The later parts of a language tag: any number of hyphens, each with letters or digits. -/
inductive Subtags : List Char → Prop
  | nil : Subtags []
  | cons {part subtags : List Char} (word : Run Char.isAlphanum part) (more : Subtags subtags) :
      Subtags ('-' :: (part ++ subtags))

/-- What may follow the closing quote: nothing, a language, or a datatype. -/
inductive Tag : List Char → Prop
  | none : Tag []
  | language {letters subtags : List Char} (word : Run Char.isAlpha letters)
      (more : Subtags subtags) : Tag ('@' :: (letters ++ subtags))
  | datatype {name : List Char} (visible : Run (!isWhiteSpace ·) name) : Tag ('^' :: '^' :: name)

inductive Sign : List Char → Prop
  | none : Sign []
  | plus : Sign ['+']
  | minus : Sign ['-']

/-- Digits of any script, with or without a point among or behind them, or digits behind a
    point. -/
inductive Mantissa : List Char → Prop
  | whole {digits : List Char} (word : Run isDecimalDigit digits) : Mantissa digits
  | point {digits fraction : List Char} (word : Run isDecimalDigit digits)
      (more : ∀ c ∈ fraction, isDecimalDigit c = true) : Mantissa (digits ++ '.' :: fraction)
  | fraction {digits : List Char} (word : Run isDecimalDigit digits) : Mantissa ('.' :: digits)

inductive Exponent : List Char → Prop
  | none : Exponent []
  | present {e : Char} {sign digits : List Char} (mark : e = 'e' ∨ e = 'E') (signed : Sign sign)
      (word : Run isDecimalDigit digits) : Exponent (e :: (sign ++ digits))

/-- The lexical forms of literals. A form is a whole text. -/
inductive LiteralForm : List Char → Prop
  | quoted {quote : Char} {body tag : List Char} (mark : quote = '"' ∨ quote = '\'')
      (inside : Body quote body) (behind : Tag tag) : LiteralForm (quote :: (body ++ quote :: tag))
  | yes : LiteralForm ['t', 'r', 'u', 'e']
  | no : LiteralForm ['f', 'a', 'l', 's', 'e']
  | number {sign mantissa exponent : List Char} (signed : Sign sign) (digits : Mantissa mantissa)
      (scale : Exponent exponent) : LiteralForm (sign ++ (mantissa ++ exponent))

/-! ## Runs -/

section Runs

variable {p : Char → Bool} {run rest cs : List Char}

/-- A text is at its end, or goes on with a character outside the class. -/
def Stops (p : Char → Bool) (cs : List Char) : Prop := ∀ c ∈ cs.head?, p c = false

/-- A run reaches as far as the class. -/
theorem takeWhile_run (inside : ∀ c ∈ run, p c = true) (stops : Stops p rest) :
    (run ++ rest).takeWhile p = run ∧ (run ++ rest).dropWhile p = rest := by
  rw [List.takeWhile_append_of_pos inside, List.dropWhile_append_of_pos inside]
  cases rest with
  | nil => simp
  | cons c cs =>
    have hc : p c = false := stops c rfl
    simp [hc]

/-- Every text is a run, perhaps an empty one, that goes on outside the class. -/
theorem exists_run (p : Char → Bool) (cs : List Char) :
    ∃ run rest, cs = run ++ rest ∧ (∀ c ∈ run, p c = true) ∧ Stops p rest := by
  refine ⟨cs.takeWhile p, cs.dropWhile p, List.takeWhile_append_dropWhile.symm,
    fun c hc => List.mem_takeWhile_imp hc, fun c hc => ?_⟩
  have hhead := List.head?_dropWhile_not p cs
  rw [Option.mem_def] at hc
  simpa [hc] using hhead

theorem run_iff : Run p cs ↔ (!cs.isEmpty && cs.all p) = true := by
  simp [Run]

end Runs

/-! ## Quoted strings -/

theorem afterClosingQuote_cons {quote c : Char} (bare : c ≠ '\\') (cs : List Char) :
    afterClosingQuote quote (c :: cs) =
      if c = quote then some cs else afterClosingQuote quote cs := by
  rw [afterClosingQuote]
  · exact fun hescape => absurd hescape bare
  · exact fun _ _ hescape => absurd hescape bare

/-- What follows the closing quote is what stands behind a body and the quote. -/
theorem afterClosingQuote_eq_some_iff {quote : Char} (hquote : quote ≠ '\\')
    {cs rest : List Char} :
    afterClosingQuote quote cs = some rest ↔
      ∃ body, cs = body ++ quote :: rest ∧ Body quote body := by
  constructor
  · intro h
    fun_induction afterClosingQuote quote cs with
    -- the text ends, or an escape reaches over a line end
    | case1 => cases h
    | case2 => cases h
    | case3 => cases h
    | case4 c cs hline ih =>
      obtain ⟨body, rfl, hbody⟩ := ih h
      exact ⟨'\\' :: c :: body, rfl, .escaped hline hbody⟩
    | case5 cs =>
      cases h
      exact ⟨[], rfl, .nil⟩
    | case6 c cs hlast hescape hother ih =>
      obtain ⟨body, rfl, hbody⟩ := ih h
      have hbare : c ≠ '\\' := by
        rintro rfl
        cases hcs : body ++ quote :: rest with
        | nil => exact hlast rfl hcs
        | cons d ds => exact hescape d ds rfl hcs
      exact ⟨c :: body, rfl, .plain hother hbare hbody⟩
  · rintro ⟨body, rfl, hbody⟩
    induction hbody with
    | nil => rw [List.nil_append, afterClosingQuote_cons hquote, if_pos rfl]
    | plain other bare _ ih => rw [List.cons_append, afterClosingQuote_cons bare, if_neg other, ih]
    | escaped sameLine _ ih =>
      rw [List.cons_append, List.cons_append, afterClosingQuote, if_neg sameLine, ih]

/-- Reading later parts of a tag goes on behind a run of letters and digits. -/
theorem isSubtags_append {part : List Char} (inside : ∀ c ∈ part, c.isAlphanum = true)
    (fresh : Bool) (cs : List Char) :
    isSubtags fresh (part ++ cs) = isSubtags (fresh && part.isEmpty) cs := by
  induction part generalizing fresh with
  | nil => simp
  | cons c part ih =>
    have hc : isTagAlphanumeric c = true := inside c (by simp)
    rw [List.cons_append, isSubtags, if_pos hc, ih fun d hd => inside d (by simp [hd])]
    simp

theorem isSubtags_of_subtags {cs : List Char} (h : Subtags cs) : isSubtags false cs = true := by
  induction h with
  | nil => rfl
  | @cons part subtags word _ ih =>
    have hpart : part.isEmpty = false := by simpa using word.1
    rw [isSubtags, if_neg (by decide), isSubtags_append word.2, hpart, Bool.and_false, ih]
    rfl

/-- What is read is letters and digits, at least one directly behind a hyphen, and further parts. -/
theorem exists_subtags {fresh : Bool} {cs : List Char} (h : isSubtags fresh cs = true) :
    ∃ part subtags, cs = part ++ subtags ∧ (∀ c ∈ part, c.isAlphanum = true) ∧
      (fresh = true → part ≠ []) ∧ Subtags subtags := by
  induction cs generalizing fresh with
  | nil =>
    have hfresh : fresh = false := by simpa [isSubtags] using h
    exact ⟨[], [], rfl, by simp, by simp [hfresh], .nil⟩
  | cons c cs ih =>
    rw [isSubtags] at h
    split at h
    · next hc =>
      obtain ⟨part, subtags, rfl, hpart, -, hsubtags⟩ := ih h
      exact ⟨c :: part, subtags, rfl, List.forall_mem_cons.2 ⟨hc, hpart⟩, by simp, hsubtags⟩
    -- a hyphen ends the part, and is read once a part has begun
    · simp only [Bool.and_eq_true, decide_eq_true_eq, Bool.not_eq_true'] at h
      obtain ⟨⟨rfl, hfresh⟩, hrest⟩ := h
      obtain ⟨part, subtags, rfl, hpart, hne, hsubtags⟩ := ih hrest
      exact ⟨[], '-' :: (part ++ subtags), rfl, by simp, by simp [hfresh],
        .cons ⟨hne rfl, hpart⟩ hsubtags⟩

theorem isSubtags_iff {cs : List Char} : isSubtags true cs = true ↔ Subtags ('-' :: cs) := by
  constructor
  · intro h
    obtain ⟨part, subtags, rfl, hpart, hne, hsubtags⟩ := exists_subtags h
    exact .cons ⟨hne rfl, hpart⟩ hsubtags
  · rintro (_ | ⟨word, more⟩)
    rw [isSubtags_append word.2, Bool.true_and, List.isEmpty_eq_false_iff.2 word.1]
    exact isSubtags_of_subtags more

/-- Further parts start with a hyphen, which is no letter. -/
theorem Subtags.stops {cs : List Char} (h : Subtags cs) : Stops isTagLetter cs := by
  cases h with
  | nil => exact fun c hc => by cases hc
  | cons word more => exact fun c hc => by cases hc; decide

theorem isLanguageTag_iff {cs : List Char} : isLanguageTag cs = true ↔ Tag ('@' :: cs) := by
  constructor
  · intro h
    obtain ⟨letters, rest, rfl, hletters, hstops⟩ := exists_run isTagLetter cs
    obtain ⟨htake, hdrop⟩ := takeWhile_run hletters hstops
    rw [isLanguageTag, htake, hdrop, Bool.and_eq_true] at h
    have hword : Run Char.isAlpha letters := ⟨by simpa using h.1, hletters⟩
    cases rest with
    | nil => exact .language hword .nil
    | cons c rest =>
      obtain ⟨rfl, hrest⟩ : c = '-' ∧ isSubtags true rest = true := by simpa using h.2
      exact .language hword (isSubtags_iff.1 hrest)
  · rintro (_ | ⟨word, more⟩)
    obtain ⟨htake, hdrop⟩ := takeWhile_run (p := isTagLetter) word.2 more.stops
    rw [isLanguageTag, htake, hdrop]
    cases more with
    | nil => simpa using word.1
    | cons part more => simpa [isSubtags_iff.2 (.cons part more)] using word.1

theorem isLiteralTag_iff {cs : List Char} : isLiteralTag cs = true ↔ Tag cs := by
  unfold isLiteralTag
  split
  · exact iff_of_true rfl .none
  · exact isLanguageTag_iff
  · next cs =>
    rw [isDatatype, ← run_iff]
    exact ⟨.datatype, fun | .datatype visible => visible⟩
  · next hempty hlanguage hdatatype =>
    refine iff_of_false Bool.false_ne_true ?_
    rintro (_ | _ | _)
    · exact hempty rfl
    · exact hlanguage _ rfl
    · exact hdatatype _ rfl

/-- A quoted string is a body between two quotes, with a tag behind. -/
theorem isQuoted_iff {quote : Char} (hquote : quote ≠ '\\') {cs : List Char} :
    isQuoted quote cs = true ↔
      ∃ body tag, cs = quote :: (body ++ quote :: tag) ∧ Body quote body ∧ Tag tag := by
  constructor
  · intro h
    cases cs with
    | nil => cases h
    | cons c cs =>
      rw [isQuoted, Bool.and_eq_true, decide_eq_true_eq] at h
      obtain ⟨rfl, hrest⟩ := h
      cases hclosed : afterClosingQuote c cs with
      | none => simp [hclosed] at hrest
      | some tag =>
        obtain ⟨body, rfl, hbody⟩ := (afterClosingQuote_eq_some_iff hquote).1 hclosed
        rw [hclosed] at hrest
        exact ⟨body, tag, rfl, hbody, isLiteralTag_iff.1 hrest⟩
  · rintro ⟨body, tag, rfl, hbody, htag⟩
    have hclosed : afterClosingQuote quote (body ++ quote :: tag) = some tag :=
      (afterClosingQuote_eq_some_iff hquote).2 ⟨body, rfl, hbody⟩
    simp [isQuoted, hclosed, isLiteralTag_iff.2 htag]

/-! ## Numbers -/

def isSign (c : Char) : Bool := c = '+' || c = '-'

theorem exists_sign (cs : List Char) : ∃ sign, cs = sign ++ dropSign cs ∧ Sign sign := by
  unfold dropSign
  split
  · exact ⟨['+'], rfl, .plus⟩
  · exact ⟨['-'], rfl, .minus⟩
  · exact ⟨[], rfl, .none⟩

/-- Only one sign is dropped, so what is behind it must not start with another. -/
theorem dropSign_append {sign rest : List Char} (signed : Sign sign)
    (unsigned : Stops isSign rest) :
    dropSign (sign ++ rest) = rest := by
  cases signed with
  | none =>
    rw [List.nil_append]
    unfold dropSign
    split
    · exact absurd (unsigned '+' rfl) (by decide)
    · exact absurd (unsigned '-' rfl) (by decide)
    · rfl
  | plus => rfl
  | minus => rfl

/-- Digits do not start with a sign. -/
theorem Run.unsigned {digits : List Char} (word : Run isDecimalDigit digits) (rest : List Char) :
    Stops isSign (digits ++ rest) := by
  obtain ⟨hne, hdigits⟩ := word
  cases digits with
  | nil => exact absurd rfl hne
  | cons d ds =>
    intro c hc
    cases hc
    have hd : isDecimalDigit d = true := hdigits d (by simp)
    simp only [isSign, Bool.or_eq_false_iff, decide_eq_false_iff_not]
    constructor
    · rintro rfl
      exact absurd hd (by decide)
    · rintro rfl
      exact absurd hd (by decide)

theorem isExponentTail_iff {cs : List Char} : isExponentTail cs = true ↔ Exponent cs := by
  cases cs with
  | nil => exact iff_of_true rfl .none
  | cons c cs =>
    rw [isExponentTail, Bool.and_eq_true, isDigits, ← run_iff]
    constructor
    · rintro ⟨hmark, hdigits⟩
      obtain ⟨sign, hcs, hsign⟩ := exists_sign cs
      rw [hcs]
      exact .present (by simpa using hmark) hsign hdigits
    · rintro (_ | @⟨_, sign, digits, mark, signed, word⟩)
      have hdrop : dropSign (sign ++ digits) = digits :=
        dropSign_append signed (by simpa using word.unsigned [])
      rw [hdrop]
      exact ⟨by simpa using mark, word⟩

/-- An exponent starts with its mark, which is no digit and no point. -/
theorem Exponent.stops {cs : List Char} (h : Exponent cs) :
    Stops (fun c => isDecimalDigit c || c = '.') cs := by
  cases h with
  | none => exact fun c hc => by cases hc
  | present mark signed word =>
    intro c hc
    cases hc
    rcases mark with rfl | rfl
    · decide
    · decide

section

variable {digits fraction rest : List Char}

theorem isUnsignedNumber_whole (inside : ∀ c ∈ digits, isDecimalDigit c = true)
    (stops : Stops (fun c => isDecimalDigit c || c = '.') rest) :
    isUnsignedNumber (digits ++ rest) = (!digits.isEmpty && isExponentTail rest) := by
  have hstops : Stops isDecimalDigit rest := fun c hc => (Bool.or_eq_false_iff.1 (stops c hc)).1
  obtain ⟨htake, hdrop⟩ := takeWhile_run inside hstops
  simp only [isUnsignedNumber, htake, hdrop]
  split
  · exact absurd (stops '.' rfl) (by decide)
  · rfl

theorem isUnsignedNumber_point (inside : ∀ c ∈ digits, isDecimalDigit c = true)
    (behind : ∀ c ∈ fraction, isDecimalDigit c = true) (stops : Stops isDecimalDigit rest) :
    isUnsignedNumber (digits ++ '.' :: (fraction ++ rest)) =
      (!(digits.isEmpty && fraction.isEmpty) && isExponentTail rest) := by
  have hpoint : Stops isDecimalDigit ('.' :: (fraction ++ rest)) := by
    intro c hc
    cases hc
    decide
  obtain ⟨htake, hdrop⟩ := takeWhile_run inside hpoint
  obtain ⟨htake', hdrop'⟩ := takeWhile_run behind stops
  simp only [isUnsignedNumber, htake, hdrop, htake', hdrop']

end

/-- A number without its sign is a mantissa with an exponent. -/
theorem isUnsignedNumber_iff {cs : List Char} :
    isUnsignedNumber cs = true ↔
      ∃ mantissa exponent, cs = mantissa ++ exponent ∧ Mantissa mantissa ∧ Exponent exponent := by
  constructor
  · intro h
    -- the longest run of digits, and behind a point the longest run again
    obtain ⟨digits, rest, rfl, hdigits, hstops⟩ := exists_run isDecimalDigit cs
    by_cases hpoint : rest.head? = some '.'
    · obtain ⟨behind, rfl⟩ := List.head?_eq_some_iff.1 hpoint
      obtain ⟨fraction, exponent, rfl, hfraction, hend⟩ := exists_run isDecimalDigit behind
      rw [isUnsignedNumber_point hdigits hfraction hend, Bool.and_eq_true] at h
      obtain ⟨hsome, htail⟩ := h
      have hexponent : Exponent exponent := isExponentTail_iff.1 htail
      by_cases hnone : digits = []
      · subst hnone
        have hword : Run isDecimalDigit fraction := ⟨by simpa using hsome, hfraction⟩
        exact ⟨'.' :: fraction, exponent, rfl, .fraction hword, hexponent⟩
      · exact ⟨digits ++ '.' :: fraction, exponent, by simp, .point ⟨hnone, hdigits⟩ hfraction,
          hexponent⟩
    · have hend : Stops (fun c => isDecimalDigit c || c = '.') rest := by
        intro c hc
        have hother : c ≠ '.' := by
          rintro rfl
          exact hpoint hc
        simp [hstops c hc, hother]
      rw [isUnsignedNumber_whole hdigits hend, Bool.and_eq_true] at h
      exact ⟨digits, rest, rfl, .whole ⟨by simpa using h.1, hdigits⟩, isExponentTail_iff.1 h.2⟩
  · rintro ⟨mantissa, exponent, rfl, hmantissa, hexponent⟩
    have hstops : Stops isDecimalDigit exponent :=
      fun c hc => (Bool.or_eq_false_iff.1 (hexponent.stops c hc)).1
    have htail : isExponentTail exponent = true := isExponentTail_iff.2 hexponent
    cases hmantissa with
    | whole word => simpa [isUnsignedNumber_whole word.2 hexponent.stops, htail] using word.1
    | @point digits fraction word more =>
      rw [List.append_assoc, List.cons_append, isUnsignedNumber_point word.2 more hstops, htail]
      simp [word.1]
    | @fraction digits word =>
      have hnothing : ∀ c ∈ ([] : List Char), isDecimalDigit c = true := by simp
      have hread := isUnsignedNumber_point hnothing word.2 hstops
      rw [List.nil_append] at hread
      rw [List.cons_append, hread, htail]
      simpa using word.1

theorem Mantissa.unsigned {cs : List Char} (h : Mantissa cs) (rest : List Char) :
    Stops isSign (cs ++ rest) := by
  cases h with
  | whole word => exact word.unsigned rest
  | point word _ => simpa using word.unsigned _
  | fraction _ => exact fun c hc => by cases hc; decide

theorem isNumber_iff {cs : List Char} :
    isNumber cs = true ↔ ∃ sign mantissa exponent,
      cs = sign ++ (mantissa ++ exponent) ∧ Sign sign ∧ Mantissa mantissa ∧ Exponent exponent := by
  constructor
  · intro h
    obtain ⟨mantissa, exponent, hcs, hmantissa, hexponent⟩ := isUnsignedNumber_iff.1 h
    obtain ⟨sign, hsplit, hsign⟩ := exists_sign cs
    exact ⟨sign, mantissa, exponent, hcs ▸ hsplit, hsign, hmantissa, hexponent⟩
  · rintro ⟨sign, mantissa, exponent, rfl, hsign, hmantissa, hexponent⟩
    rw [isNumber, dropSign_append hsign (hmantissa.unsigned exponent)]
    exact isUnsignedNumber_iff.2 ⟨mantissa, exponent, rfl, hmantissa, hexponent⟩

/-! ## Literals -/

/-- Exactly the texts of the grammar are taken for literals. -/
theorem isLiteral_iff {s : String} : isLiteral s = true ↔ LiteralForm s.toList := by
  have hdouble : isQuoted '"' s.toList = true ↔ _ := isQuoted_iff (by decide)
  have hsingle : isQuoted '\'' s.toList = true ↔ _ := isQuoted_iff (by decide)
  have hyes : s = "true" ↔ s.toList = ['t', 'r', 'u', 'e'] := String.toList_inj.symm
  have hno : s = "false" ↔ s.toList = ['f', 'a', 'l', 's', 'e'] := String.toList_inj.symm
  simp only [isLiteral, Bool.or_eq_true, decide_eq_true_eq, hdouble, hsingle, hyes, hno,
    isNumber_iff]
  constructor
  · rintro ((((⟨body, tag, hs, hbody, htag⟩ | ⟨body, tag, hs, hbody, htag⟩) | hs) | hs) |
      ⟨sign, mantissa, exponent, hs, hsign, hmantissa, hexponent⟩)
    · exact hs ▸ .quoted (.inl rfl) hbody htag
    · exact hs ▸ .quoted (.inr rfl) hbody htag
    · exact hs ▸ .yes
    · exact hs ▸ .no
    · exact hs ▸ .number hsign hmantissa hexponent
  · intro h
    generalize s.toList = cs at h ⊢
    cases h with
    | quoted mark inside behind =>
      rcases mark with rfl | rfl
      · exact .inl (.inl (.inl (.inl ⟨_, _, rfl, inside, behind⟩)))
      · exact .inl (.inl (.inl (.inr ⟨_, _, rfl, inside, behind⟩)))
    | yes => exact .inl (.inl (.inr rfl))
    | no => exact .inl (.inr rfl)
    | number signed digits scale => exact .inr ⟨_, _, _, rfl, signed, digits, scale⟩

end Sparql

/-! ## What a node stands for -/

open Sparql (LiteralForm)

/-- The kind of a node that shows a text. Of the five rules the first that applies counts. -/
inductive NodeKind.Classifies (s : String) : NodeKind → Prop
  | literal (form : LiteralForm s.toList) : Classifies s .literal
  | withColon (noLiteral : ¬ LiteralForm s.toList) (colon : ':' ∈ s.toList) : Classifies s .uri
  | named {c : Char} {cs : List Char} (noLiteral : ¬ LiteralForm s.toList)
      (noColon : ':' ∉ s.toList) (name : s.toList = '?' :: c :: cs) : Classifies s .selectedVariable
  | unnamed (noLiteral : ¬ LiteralForm s.toList) (noColon : ':' ∉ s.toList)
      (mark : s.toList = ['?']) : Classifies s .unboundVariable
  | other (noLiteral : ¬ LiteralForm s.toList) (noColon : ':' ∉ s.toList)
      (noVariable : s.toList.head? ≠ some '?') : Classifies s .uri

namespace Sparql

theorem hasColon_iff {s : String} : hasColon s = true ↔ ':' ∈ s.toList := by
  simp [hasColon]

theorem isNamedVariable_iff {s : String} :
    isNamedVariable s = true ↔ ∃ c cs, s.toList = '?' :: c :: cs := by
  unfold isNamedVariable
  split
  · next c cs hs => exact iff_of_true rfl ⟨c, cs, hs⟩
  · next hother => exact iff_of_false Bool.false_ne_true fun ⟨c, cs, hs⟩ => hother c cs hs

theorem eq_anonymous_iff {s : String} : s = anonymous ↔ s.toList = ['?'] :=
  String.toList_inj.symm

end Sparql

open Sparql in
theorem NodeKind.classifies_ofContent (s : String) : Classifies s (ofContent s) := by
  unfold ofContent
  split
  · next h => exact .literal (isLiteral_iff.1 h)
  · next h =>
    have noLiteral : ¬ LiteralForm s.toList := mt isLiteral_iff.2 h
    split
    · next h => exact .withColon noLiteral (hasColon_iff.1 h)
    · next h =>
      have noColon : ':' ∉ s.toList := mt hasColon_iff.2 h
      split
      · next h =>
        obtain ⟨c, cs, hs⟩ := isNamedVariable_iff.1 h
        exact .named noLiteral noColon hs
      · next hname =>
        split
        · next h => exact .unnamed noLiteral noColon (eq_anonymous_iff.1 h)
        · next hmark =>
          refine .other noLiteral noColon fun hhead => ?_
          obtain ⟨cs, hs⟩ := List.head?_eq_some_iff.1 hhead
          cases cs with
          | nil => exact hmark (eq_anonymous_iff.2 hs)
          | cons c cs => exact hname (isNamedVariable_iff.2 ⟨c, cs, hs⟩)

open Sparql in
/-- The kind that is found out from a text is the only one that the rules allow. -/
theorem NodeKind.Classifies.ofContent_eq {s : String} {kind : NodeKind} (h : Classifies s kind) :
    ofContent s = kind := by
  unfold ofContent
  cases h with
  | literal form => rw [if_pos (isLiteral_iff.2 form)]
  | withColon noLiteral colon =>
    rw [if_neg (mt isLiteral_iff.1 noLiteral), if_pos (hasColon_iff.2 colon)]
  | named noLiteral noColon name =>
    rw [if_neg (mt isLiteral_iff.1 noLiteral), if_neg (mt hasColon_iff.1 noColon),
      if_pos (isNamedVariable_iff.2 ⟨_, _, name⟩)]
  | unnamed noLiteral noColon mark =>
    have hname : ¬ isNamedVariable s = true := by
      rw [isNamedVariable_iff, mark]
      simp
    rw [if_neg (mt isLiteral_iff.1 noLiteral), if_neg (mt hasColon_iff.1 noColon), if_neg hname,
      if_pos (eq_anonymous_iff.2 mark)]
  | other noLiteral noColon noVariable =>
    have hname : ¬ isNamedVariable s = true := by
      rw [isNamedVariable_iff]
      rintro ⟨c, cs, hs⟩
      exact noVariable (by rw [hs]; rfl)
    have hmark : s ≠ anonymous := by
      rw [Ne, eq_anonymous_iff]
      intro hs
      exact noVariable (by rw [hs]; rfl)
    rw [if_neg (mt isLiteral_iff.1 noLiteral), if_neg (mt hasColon_iff.1 noColon), if_neg hname,
      if_neg hmark]

/-- Whatever the text: it is taken for a literal if and only if the grammar says so, and a node
    that shows it is of the kind that the first of the rules that apply gives it. -/
theorem Sparql.literals_exactly_by_grammar (s : String) :
    (isLiteral s = true ↔ LiteralForm s.toList) ∧
      ∀ kind, NodeKind.ofContent s = kind ↔ NodeKind.Classifies s kind := by
  refine ⟨isLiteral_iff, fun kind => ⟨?_, NodeKind.Classifies.ofContent_eq⟩⟩
  rintro rfl
  exact NodeKind.classifies_ofContent s

-- a line end may stand in a string, but not behind a number
example : Sparql.isLiteral "'two\nlines'@en-GB" = true ∧ Sparql.isLiteral "2.\n" = false := by
  decide

end QueryCanvas
