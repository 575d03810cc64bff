/-
  QueryCanvas.Proofs.Json.Token

  Reading the tokens of a written value.

  In a string every character is read back as itself, whether it was escaped or
  not (`characterCode_escapeChar`). A number ends where a comma or a closing
  bracket follows, so that it is read the same inside a text as by itself
  (`steady_numberScan`). From these, `tokens_write` finds the tokens of a value
  in its text.
-/

import QueryCanvas.Json.Printer
import QueryCanvas.Json.Reader
import QueryCanvas.Proofs.Text.Scan

namespace QueryCanvas.Json

open QueryCanvas.Text Scan

/-! ## Strings -/

theorem characterCode_plain {c : Char} (rest : List Char)
    (plain : (0x20 ≤ c.toNat && c ≠ '"' && c ≠ '\\') = true) :
    characterCode (c :: rest) = some (c.toNat, rest) := by
  have hchar : Scan.char (fun c => 0x20 ≤ c.toNat && c ≠ '"' && c ≠ '\\') (c :: rest) =
      some (c, rest) := if_pos plain
  exact orElse_of_read (bind_of_read hchar)

theorem characterCode_hexadecimal {digits : List Char} (rest : List Char)
    (four : digits.length = 4) (hex : digits.all fun c => (hexValue? c).isSome) :
    characterCode ('\\' :: 'u' :: (digits ++ rest)) = some (digitsValue 16 digits, rest) := by
  have hcount : Scan.count 4 (fun c => (hexValue? c).isSome) (digits ++ rest) =
      some (digits, rest) := by
    simp only [Scan.count, ← four, List.take_left, List.drop_left, hex, decide_true, Bool.and_self,
      if_true]
  show (Scan.count 4 _ (digits ++ rest)).bind
    (fun read => some (digitsValue 16 read.1, read.2)) = _
  rw [hcount]
  rfl

/-- The code of a control character in four hexadecimal digits. -/
theorem digitsValue_padded :
    ∀ code < 0x20,
      let digits := ['0', '0', Nat.digitChar (code / 16), Nat.digitChar (code % 16)]
      digitsValue 16 digits = code ∧ (digits.all fun c => (hexValue? c).isSome) = true := by
  decide

/-- A character is read back from the form that it has in a string. -/
theorem characterCode_escapeChar (c : Char) (rest : List Char) :
    characterCode (escapeChar c ++ rest) = some (c.toNat, rest) := by
  fun_cases escapeChar c with
  | case8 _ _ _ _ _ _ _ _ hcontrol =>
    -- a control character, with its code in hexadecimal digits
    obtain ⟨hvalue, hdigits⟩ := digitsValue_padded c.toNat hcontrol
    exact (characterCode_hexadecimal rest rfl hdigits).trans (by rw [hvalue])
  | case9 _ hquote hbackslash _ _ _ _ _ hcontrol =>
    -- a character that stands for itself
    refine characterCode_plain rest ?_
    simp only [Bool.and_eq_true, decide_eq_true_eq]
    exact ⟨⟨Nat.le_of_not_lt hcontrol, hquote⟩, hbackslash⟩
  | _ => rfl

theorem escapeChar_ne_nil (c : Char) : escapeChar c ≠ [] := by
  fun_cases escapeChar c <;> simp

/-- A character is no half of a surrogate pair. -/
theorem not_isSurrogate (c : Char) :
    isHighSurrogate c.toNat = false ∧ isLowSurrogate c.toNat = false := by
  have hvalid : c.toNat < 0xD800 ∨ 0xDFFF < c.toNat ∧ c.toNat < 0x110000 := c.valid
  simp only [isHighSurrogate, isLowSurrogate, Bool.and_eq_false_iff, decide_eq_false_iff_not]
  omega

theorem charactersOf?_toNat (cs : List Char) : charactersOf? (cs.map Char.toNat) = some cs := by
  induction cs with
  | nil => rfl
  | cons c cs ih =>
    obtain ⟨hhigh, hlow⟩ := not_isSurrogate c
    cases cs with
    | nil => simp [charactersOf?, hhigh, hlow]
    | cons d ds =>
      rw [List.map_cons, List.map_cons] at *
      simp [charactersOf?, hhigh, hlow, ih]

/-- The characters of a string, up to the closing quote. -/
theorem repeats_characterCode (cs rest : List Char) :
    Repeats characterCode (cs.flatMap escapeChar ++ rest) (cs.map Char.toNat) rest := by
  induction cs with
  | nil => exact .none
  | cons c cs ih =>
    rw [List.flatMap_cons, List.append_assoc, List.map_cons]
    refine .more (characterCode_escapeChar c _) ?_ ih
    have hlength := List.length_pos_iff.2 (escapeChar_ne_nil c)
    simp only [List.length_append]
    omega

/-- A text is read back from its form in quotes. -/
theorem stringScan_quote (s : String) (rest : List Char) :
    stringScan ((quote s).toList ++ rest) = some (.text s, rest) := by
  have htext : (quote s).toList ++ rest = '"' :: (s.toList.flatMap escapeChar ++ '"' :: rest) := by
    simp [quote]
  have hcodes : Scan.many characterCode (s.toList.flatMap escapeChar ++ '"' :: rest) =
      some (s.toList.map Char.toNat, '"' :: rest) :=
    (repeats_characterCode s.toList ('"' :: rest)).many (.inr rfl)
  have hopening (cs : List Char) : Scan.text "\"" ('"' :: cs) = some ((), cs) := rfl
  rw [htext, stringScan, bind_of_read (hopening _), bind_of_read hcodes, bind_of_read (hopening _),
    charactersOf?_toNat]
  show some (Json.text (String.ofList s.toList), rest) = _
  rw [String.ofList_toList]

/-! ## Numbers -/

/-- True for the characters that may follow a value. -/
def endsValue (c : Char) : Bool := c = ',' || c = ']' || c = '\x7d'

/-- A value ends where one of these characters follows, or nothing. -/
def Ends (rest : List Char) : Prop := ∀ c ∈ rest.head?, endsValue c = true

theorem eq_false_of_endsValue {p : Char → Bool}
    (h : ([',', ']', '\x7d'].all fun c => !p c) = true) :
    ∀ c, endsValue c = true → p c = false := by
  intro c hc
  simp only [endsValue, Bool.or_eq_true, decide_eq_true_eq] at hc
  simp only [List.all_cons, List.all_nil, Bool.and_true, Bool.and_eq_true, Bool.not_eq_true'] at h
  rcases hc with (rfl | rfl) | rfl
  exacts [h.1, h.2.1, h.2.2]

theorem steady_digits : Steady endsValue digits := steady_run1 (eq_false_of_endsValue rfl)

/-- A number is read the same whatever stands behind it, if the value ends there. -/
theorem steady_numberScan : Steady endsValue numberScan := by
  refine (steady_text (by simp [endsValue])).succeeds.bind fun negative => ?_
  refine steady_digits.bind fun whole => ?_
  split
  · exact fun _ _ _ => rfl
  · refine (steady_text (by simp [endsValue])).succeeds.bind fun hasFraction => ?_
    -- with and without a fraction, the same follows
    split
    all_goals
      refine Steady.bind (by first | exact steady_digits.map some | exact steady_pure none)
        fun fraction => ?_
      refine (steady_char (eq_false_of_endsValue rfl)).succeeds.bind fun hasExponent => ?_
      split
    case isTrue.isTrue | isFalse.isTrue =>
      refine (steady_char (eq_false_of_endsValue rfl)).optional.bind fun sign => ?_
      exact steady_digits.bind fun _ => (steady_pure _).bind fun exponent => steady_pure _
    all_goals exact (steady_pure _).bind fun exponent => steady_pure _

/-- True for the characters that a number may begin with. -/
def beginsNumber (c : Char) : Bool := c = '-' || c.isDigit

theorem beginsNumber_of_numberScan {cs : List Char} {found : Number × List Char}
    (h : numberScan cs = some found) : ∃ c rest, cs = c :: rest ∧ beginsNumber c = true := by
  rcases cs with - | ⟨c, rest⟩
  · cases h
  · refine ⟨c, rest, rfl, ?_⟩
    by_contra hbegins
    simp only [beginsNumber, Bool.or_eq_true, decide_eq_true_eq, not_or] at hbegins
    have hsign : Scan.text "-" (c :: rest) = none := text_of_ne rfl (Ne.symm hbegins.1)
    have hdigits : digits (c :: rest) = none := by
      simp [digits, Scan.run1, hbegins.2]
    rw [numberScan, bind_of_read (succeeds_of_failed hsign), bind_of_failed hdigits] at h
    cases h

/-- The text of a number is read as the number. -/
def Number.ReadsBack (n : Number) : Prop := numberScan n.write.toList = some (n, [])

instance (n : Number) : Decidable n.ReadsBack := inferInstanceAs (Decidable (_ = _))

theorem Number.ReadsBack.numberScan {n : Number} (h : n.ReadsBack) {rest : List Char}
    (ends : Ends rest) : numberScan (n.write.toList ++ rest) = some (n, rest) := by
  rw [steady_numberScan n.write.toList rest ends, h]
  rfl

/-! ### Whole numbers -/

theorem le_ofDigitChars (digits : List Char) (value : Nat) :
    value ≤ Nat.ofDigitChars 10 digits value := by
  induction digits generalizing value with
  | nil => simp
  | cons c cs ih =>
    rw [Nat.ofDigitChars_cons]
    exact Nat.le_trans (by omega) (ih _)

/-- Digits are taken as long as their number stays below 2 ^ 64. -/
theorem Significand.pushAll_eq (digits : List Char) {value taken : Nat}
    (small : Nat.ofDigitChars 10 digits value < 0x10000000000000000) :
    (⟨value, taken, false⟩ : Significand).pushAll digits =
      ⟨Nat.ofDigitChars 10 digits value, taken + digits.length, false⟩ := by
  induction digits generalizing value taken with
  | nil => simp [pushAll]
  | cons c cs ih =>
    rw [Nat.ofDigitChars_cons] at small ⊢
    have hvalue : value * 10 + (c.toNat - 48) = 10 * value + (c.toNat - '0'.toNat) := by
      rw [Nat.mul_comm]
      rfl
    -- the number only grows with the digits to come, so that this one is taken too
    have hpush : (⟨value, taken, false⟩ : Significand).push c =
        ⟨10 * value + (c.toNat - '0'.toNat), taken + 1, false⟩ := by
      have hsmall := Nat.lt_of_le_of_lt (le_ofDigitChars cs _) small
      simp only [push, hvalue, Bool.false_or, decide_eq_true_eq, if_neg (Nat.not_le.2 hsmall)]
    rw [pushAll, List.foldl_cons, hpush, ← pushAll, ih small, List.length_cons]
    simp only [Significand.mk.injEq, and_true, true_and]
    omega

/-- Only zero begins with the digit zero. -/
theorem head?_toDigits {n : Nat} (h : 0 < n) : (Nat.toDigits 10 n).head? ≠ some '0' := by
  induction n using Nat.strongRecOn with
  | ind n ih =>
    by_cases hsmall : n < 10
    · rw [Nat.toDigits_of_lt_base hsmall]
      have hdigit : ∀ d < 10, 0 < d → Nat.digitChar d ≠ '0' := by decide
      simpa using hdigit n hsmall h
    · rw [Nat.toDigits_of_base_le (by decide) (by omega)]
      have hrest := ih (n / 10) (by omega) (by omega)
      rcases hfront : Nat.toDigits 10 (n / 10) with - | ⟨c, cs⟩
      · exact absurd hfront Nat.toDigits_ne_nil
      · rwa [hfront] at hrest

/-- Digits by themselves are a whole number. -/
theorem numberScan_digits {whole : List Char} (nonempty : whole ≠ [])
    (inside : ∀ c ∈ whole, c.isDigit = true)
    (noZero : (1 < whole.length && whole.head? = some '0') = false) :
    numberScan whole = some (.ofDigits false whole none none, []) := by
  have hsign : Scan.text "-" whole = none := by
    rcases whole with - | ⟨c, cs⟩
    · exact absurd rfl nonempty
    · refine text_of_ne (w := '-') rfl ?_
      rintro rfl
      cases inside '-' (by simp)
  have hdigits : digits whole = some (whole, []) := by
    have hall : whole.takeWhile Char.isDigit = whole := List.takeWhile_eq_self_iff.2 inside
    have hnone : whole.dropWhile Char.isDigit = [] := List.dropWhile_eq_nil_iff.2 inside
    simp [digits, Scan.run1, hall, hnone, nonempty]
  rw [numberScan, bind_of_read (succeeds_of_failed hsign), bind_of_read hdigits, noZero]
  rfl

/-- A whole number of 64 bits is read back from its digits. -/
theorem Number.readsBack_natural {n : Nat} (small : n < 0x10000000000000000) :
    (Number.natural n).ReadsBack := by
  have hvalue : Nat.ofDigitChars 10 (Nat.toDigits 10 n) 0 = n := Nat.ofDigitChars_ten_toDigits
  have hpush : (⟨0, 0, false⟩ : Significand).pushAll (Nat.toDigits 10 n) =
      ⟨n, (Nat.toDigits 10 n).length, false⟩ := by
    rw [Significand.pushAll_eq _ (hvalue.symm ▸ small), hvalue, Nat.zero_add]
  have hscan : numberScan (Nat.toDigits 10 n) =
      some (.ofDigits false (Nat.toDigits 10 n) none none, []) := by
    refine numberScan_digits Nat.toDigits_ne_nil
      (fun c hc => Nat.isDigit_of_mem_toDigits (by decide) (by decide) hc) ?_
    rcases Nat.eq_zero_or_pos n with rfl | hpos
    · rfl
    · simp [head?_toDigits hpos]
  show numberScan (Nat.repr n).toList = _
  rw [Nat.toList_repr, hscan]
  simp [Number.ofDigits, hpush]

/-! ## Values -/

mutual

/-- True if the value is read back from its text: its numbers are, and there is room for the arrays
    and objects inside each other. -/
def Plain : Json → Nat → Prop
  | null, _ | bool _, _ | text _, _ => True
  | number n, _ => n.ReadsBack
  | array items, room + 1 => AllPlain items room
  | object members, room + 1 => AllMembersPlain members room
  | _, _ => False

def AllPlain : List Json → Nat → Prop
  | [], _ => True
  | j :: rest, room => j.Plain room ∧ AllPlain rest room

def AllMembersPlain : List (String × Json) → Nat → Prop
  | [], _ => True
  | (_, j) :: rest, room => j.Plain room ∧ AllMembersPlain rest room

end

theorem allPlain_iff {items : List Json} {room : Nat} :
    AllPlain items room ↔ ∀ j ∈ items, j.Plain room := by
  induction items with
  | nil => simp [AllPlain]
  | cons j rest ih => simp [AllPlain, ih]

theorem allMembersPlain_iff {members : List (String × Json)} {room : Nat} :
    AllMembersPlain members room ↔ ∀ e ∈ members, e.2.Plain room := by
  induction members with
  | nil => simp [AllMembersPlain]
  | cons e rest ih => simp [AllMembersPlain, ih]

mutual

/-- More room does no harm. -/
theorem Plain.mono : {j : Json} → {room room' : Nat} → j.Plain room → room ≤ room' → j.Plain room'
  | null, _, _, _, _ | bool _, _, _, _, _ | text _, _, _, _, _ => by simp [Plain]
  | number n, _, _, h, _ => by simpa [Plain] using h
  | array items, room + 1, room' + 1, h, more =>
    AllPlain.mono h (Nat.le_of_succ_le_succ more)
  | object members, room + 1, room' + 1, h, more =>
    AllMembersPlain.mono h (Nat.le_of_succ_le_succ more)

theorem AllPlain.mono : {items : List Json} → {room room' : Nat} → AllPlain items room →
    room ≤ room' → AllPlain items room'
  | [], _, _, _, _ => trivial
  | _ :: _, _, _, h, more => ⟨h.1.mono more, AllPlain.mono h.2 more⟩

theorem AllMembersPlain.mono : {members : List (String × Json)} → {room room' : Nat} →
    AllMembersPlain members room → room ≤ room' → AllMembersPlain members room'
  | [], _, _, _, _ => trivial
  | _ :: _, _, _, h, more => ⟨h.1.mono more, AllMembersPlain.mono h.2 more⟩

end

mutual

/-- The tokens of a written value. -/
def tokensOf : Json → List Token
  | array items => .openArray :: (itemTokens items ++ [.closeArray])
  | object members => .openObject :: (memberTokens members ++ [.closeObject])
  | j => [.scalar j]

def itemTokens : List Json → List Token
  | [] => []
  | [j] => j.tokensOf
  | j :: next :: rest => j.tokensOf ++ .comma :: itemTokens (next :: rest)

def memberTokens : List (String × Json) → List Token
  | [] => []
  | [(key, j)] => .scalar (.text key) :: .colon :: j.tokensOf
  | (key, j) :: next :: rest =>
    .scalar (.text key) :: .colon :: (j.tokensOf ++ .comma :: memberTokens (next :: rest))

end

section Tokens

variable {c : Char} {cs rest : List Char} {value : Json}

theorem run_isJsonBlank (noBlank : isJsonBlank c = false) :
    Scan.run isJsonBlank (c :: cs) = some ([], c :: cs) := by
  simp [Scan.run, noBlank]

/-- A value without parts is one token if it begins as such. -/
theorem token_scalar (noBlank : isJsonBlank c = false)
    (noMark : "[]\x7b\x7d,:".toList.contains c = false)
    (scalar : scalarScan (c :: cs) = some (value, rest)) :
    token (c :: cs) = some (.scalar value, rest) := by
  have hmark : Scan.char (fun c => "[]\x7b\x7d,:".toList.contains c) (c :: cs) = none := by
    rw [Scan.char, noMark]
    rfl
  rw [token, bind_of_read (run_isJsonBlank noBlank), orElse_of_failed (bind_of_failed hmark),
    bind_of_read scalar]
  rfl

theorem token_quote (s : String) :
    token ((quote s).toList ++ rest) = some (.scalar (.text s), rest) := by
  have hscalar : scalarScan ((quote s).toList ++ rest) = some (.text s, rest) :=
    orElse_of_read (stringScan_quote s rest)
  have htext : (quote s).toList ++ rest = '"' :: (s.toList.flatMap escapeChar ++ '"' :: rest) := by
    simp [quote]
  rw [htext] at hscalar ⊢
  exact token_scalar rfl (by decide) hscalar

theorem token_number {n : Number} (readsBack : n.ReadsBack) (ends : Ends rest) :
    token (n.write.toList ++ rest) = some (.scalar (.number n), rest) := by
  have hnumber := readsBack.numberScan ends
  obtain ⟨c, cs, htext, hbegins⟩ := beginsNumber_of_numberScan hnumber
  rw [htext] at hnumber ⊢
  -- nothing else begins like a number
  have hother (d : Char) (hd : beginsNumber d = false) : d ≠ c := by
    rintro rfl
    cases hbegins.symm.trans hd
  refine token_scalar ?_ ?_ ?_
  · simp [isJsonBlank, (hother ' ' rfl).symm, (hother '\n' rfl).symm, (hother '\t' rfl).symm,
      (hother '\x0d' rfl).symm]
  · simp [(hother '[' rfl).symm, (hother ']' rfl).symm, (hother '\x7b' rfl).symm,
      (hother '\x7d' rfl).symm, (hother ',' rfl).symm, (hother ':' rfl).symm]
  · have hquote : Scan.text "\"" (c :: cs) = none := text_of_ne (w := '"') rfl (hother _ rfl)
    have hnull : Scan.text "null" (c :: cs) = none := text_of_ne (w := 'n') rfl (hother _ rfl)
    have htrue : Scan.text "true" (c :: cs) = none := text_of_ne (w := 't') rfl (hother _ rfl)
    have hfalse : Scan.text "false" (c :: cs) = none := text_of_ne (w := 'f') rfl (hother _ rfl)
    have hstring : stringScan (c :: cs) = none := bind_of_failed hquote
    rw [scalarScan, orElse_of_failed hstring, orElse_of_failed (bind_of_failed hnull),
      orElse_of_failed (bind_of_failed htrue), orElse_of_failed (bind_of_failed hfalse),
      bind_of_read hnumber]
    rfl

end Tokens

/-! ## Tokens of a text -/

theorem length_lt_append {front : List Char} (h : front ≠ []) (rest : List Char) :
    rest.length < (front ++ rest).length := by
  have hlength := List.length_pos_iff.2 h
  simp only [List.length_append]
  omega

theorem repeats_word {word : String} {value : Json} (rest : List Char) (nonempty : word.toList ≠ [])
    (read : token (word.toList ++ rest) = some (.scalar value, rest)) :
    Repeats token (word.toList ++ rest) [.scalar value] rest :=
  .one read (length_lt_append nonempty rest)

theorem repeats_quote (s : String) (rest : List Char) :
    Repeats token ((quote s).toList ++ rest) [.scalar (.text s)] rest :=
  .one (token_quote s) (length_lt_append (by simp [quote]) rest)

theorem repeats_number {n : Number} (readsBack : n.ReadsBack) {rest : List Char}
    (ends : Ends rest) :
    Repeats token (n.write.toList ++ rest) [.scalar (.number n)] rest := by
  refine .one (token_number readsBack ends) (length_lt_append ?_ rest)
  obtain ⟨c, cs, htext, -⟩ := beginsNumber_of_numberScan readsBack
  simp [htext]

/-- One of the marks between values. -/
theorem repeats_mark {c : Char} {mark : Token} {cs rest : List Char} {further : List Token}
    (read : token (c :: cs) = some (mark, cs)) (h : Repeats token cs further rest) :
    Repeats token (c :: cs) (mark :: further) rest :=
  .more read (by simp) h

theorem ends_of_endsValue {c : Char} (h : endsValue c = true) (rest : List Char) :
    Ends (c :: rest) := by
  simpa [Ends] using h

mutual

/-- The tokens of a value are found in its text, if the value ends there. -/
theorem repeats_write : (j : Json) → {room : Nat} → j.Plain room → {rest : List Char} →
    Ends rest → Repeats token (j.write.toList ++ rest) j.tokensOf rest
  | null, _, _, rest, _ => repeats_word rest (by decide) rfl
  | bool true, _, _, rest, _ => repeats_word rest (by decide) rfl
  | bool false, _, _, rest, _ => repeats_word rest (by decide) rfl
  | number n, _, plain, rest, ends => by
    have readsBack : n.ReadsBack := by simpa [Plain] using plain
    exact repeats_number readsBack ends
  | text s, _, _, rest, _ => repeats_quote s rest
  | array items, room + 1, plain, rest, _ => by
    have htext : (write (array items)).toList ++ rest =
        '[' :: ((Text.joinWith "," (writeItems items)).toList ++ ']' :: rest) := by
      simp [write]
    rw [htext, tokensOf]
    exact repeats_mark rfl
      ((repeats_writeItems items plain (ends_of_endsValue rfl rest)).append
        (repeats_mark rfl .none))
  | object members, room + 1, plain, rest, _ => by
    have htext : (write (object members)).toList ++ rest =
        '\x7b' :: ((Text.joinWith "," (writeMembers members)).toList ++ '\x7d' :: rest) := by
      simp [write]
    rw [htext, tokensOf]
    exact repeats_mark rfl
      ((repeats_writeMembers members plain (ends_of_endsValue rfl rest)).append
        (repeats_mark rfl .none))

theorem repeats_writeItems : (items : List Json) → {room : Nat} → AllPlain items room →
    {rest : List Char} → Ends rest →
    Repeats token ((Text.joinWith "," (writeItems items)).toList ++ rest) (itemTokens items) rest
  | [], _, _, _, _ => .none
  | [j], _, plain, rest, ends => by
    simpa [writeItems, Text.joinWith, itemTokens] using repeats_write j plain.1 ends
  | j :: next :: items, _, plain, rest, ends => by
    have htext : (Text.joinWith "," (writeItems (j :: next :: items))).toList ++ rest =
        j.write.toList ++
          ',' :: ((Text.joinWith "," (writeItems (next :: items))).toList ++ rest) := by
      simp [writeItems, Text.joinWith, String.intercalate_cons_cons]
    rw [htext, itemTokens]
    exact (repeats_write j plain.1 (ends_of_endsValue rfl _)).append
      (repeats_mark rfl (repeats_writeItems (next :: items) plain.2 ends))

theorem repeats_writeMembers : (members : List (String × Json)) → {room : Nat} →
    AllMembersPlain members room → {rest : List Char} → Ends rest →
    Repeats token ((Text.joinWith "," (writeMembers members)).toList ++ rest)
      (memberTokens members) rest
  | [], _, _, _, _ => .none
  | [(key, j)], _, plain, rest, ends => by
    have htext : (Text.joinWith "," (writeMembers [(key, j)])).toList ++ rest =
        (quote key).toList ++ ':' :: (j.write.toList ++ rest) := by
      simp [writeMembers, Text.joinWith]
    rw [htext, memberTokens]
    exact (repeats_quote key _).append (repeats_mark rfl (repeats_write j plain.1 ends))
  | (key, j) :: next :: members, _, plain, rest, ends => by
    have htext : (Text.joinWith "," (writeMembers ((key, j) :: next :: members))).toList ++ rest =
        (quote key).toList ++ ':' :: (j.write.toList ++
          ',' :: ((Text.joinWith "," (writeMembers (next :: members))).toList ++ rest)) := by
      obtain ⟨nextKey, nextValue⟩ := next
      simp [writeMembers, Text.joinWith, String.intercalate_cons_cons]
    rw [htext, memberTokens]
    exact (repeats_quote key _).append (repeats_mark rfl
      ((repeats_write j plain.1 (ends_of_endsValue rfl _)).append
        (repeats_mark rfl (repeats_writeMembers (next :: members) plain.2 ends))))

end

/-- A written value is cut into its tokens. -/
theorem Plain.tokens_write {j : Json} {room : Nat} (plain : j.Plain room) :
    tokens j.write = j.tokensOf := by
  have hends : Ends [] := by simp [Ends]
  have hmany := (repeats_write j plain hends).many (.inl rfl)
  rw [List.append_nil] at hmany
  simp [tokens, hmany]

end QueryCanvas.Json
