/-
  QueryCanvas.Proofs.Wire.Form

  JSON forms from which values are read back.

  The form of a type consists of the way to JSON and the way back. Identities
  are 32-bit numbers and coordinates are finite, so that a form is lawful if it
  works for these (`WireForm.Lawful`). What a text is read as is always of this
  kind. A lawful form round-trips as far as the texts of the numbers do
  (`WireForm.Lawful.roundTrips`).
-/

import QueryCanvas.Proofs.Json.Record

namespace QueryCanvas

open Json (Decoder Record Number)

/-- A JSON form of a type, with the numbers and identities that occur in a value. -/
structure WireForm (β : Type) where
  toJson : β → Json
  ofJson : Decoder β
  numbers : β → List Float
  identities : β → List Nat

namespace WireForm

variable {β : Type}

/-- The text of a value. -/
def write (w : WireForm β) (b : β) : String := (w.toJson b).write

/-- The value in a text. -/
def read (w : WireForm β) (s : String) : Except Json.Flaw β :=
  (Json.Document.read s).accept w.ofJson

/-- Identities have 32 bits, and numbers are finite. -/
structure Expressible (w : WireForm β) (b : β) : Prop where
  identities : ∀ n ∈ w.identities b, n < 0x100000000
  numbers : ∀ x ∈ w.numbers b, x.isFinite = true

/-- The texts of the numbers are read as these numbers. -/
def NumbersReadBack (w : WireForm β) (b : β) : Prop :=
  ∀ x ∈ w.numbers b, x.isFinite = true → (Number.real x).ReadsBack

section Texts

variable {toJson : β → Json} {ofJson : Decoder β} {b : β}

/-- A form with neither numbers nor identities. -/
def ofTexts (toJson : β → Json) (ofJson : Decoder β) : WireForm β :=
  ⟨toJson, ofJson, fun _ => [], fun _ => []⟩

theorem expressible_ofTexts : (ofTexts toJson ofJson).Expressible b :=
  ⟨by simp [ofTexts], by simp [ofTexts]⟩

theorem numbersReadBack_ofTexts : (ofTexts toJson ofJson).NumbersReadBack b := by
  simp [NumbersReadBack, ofTexts]

end Texts

section Parts

variable {γ : Type} {w : WireForm β} {part : WireForm γ} {b : β} {c : γ}

theorem Expressible.of_subset (h : w.Expressible b)
    (identities : part.identities c ⊆ w.identities b) (numbers : part.numbers c ⊆ w.numbers b) :
    part.Expressible c :=
  ⟨fun n hn => h.identities n (identities hn), fun x hx => h.numbers x (numbers hx)⟩

theorem NumbersReadBack.of_subset (h : w.NumbersReadBack b)
    (numbers : part.numbers c ⊆ w.numbers b) : part.NumbersReadBack c :=
  fun x hx => h x (numbers hx)

end Parts

/-- A value is read back from its text, and a value that was read from any text is still the same
    after it was written and read again. All this as far as the numbers of the value are read back
    from their texts. -/
structure RoundTrips (w : WireForm β) : Prop where
  read_write : ∀ b, w.Expressible b → w.NumbersReadBack b → w.read (w.write b) = .ok b
  read_write_of_read : ∀ s b, w.read s = .ok b → w.NumbersReadBack b →
    w.read (w.write b) = .ok b

/-- A form that leads back to the same value, with at most `room` arrays and objects inside each
    other, and that accepts nothing but what can be expressed. -/
structure Lawful (w : WireForm β) (room : Nat) : Prop where
  hasKey : ∀ b, Json.HasKey (w.toJson b)
  ofJson_toJson : ∀ b, w.Expressible b → w.ofJson (w.toJson b) = .ok b
  plain : ∀ b, w.Expressible b → w.NumbersReadBack b → (w.toJson b).Plain room
  yields : Decoder.Yields w.ofJson w.Expressible

/-- The form of a part of a value has numbers that are read back too. -/
theorem Lawful.plain_part {γ : Type} {w : WireForm β} {part : WireForm γ} {b : β} {c : γ}
    {room : Nat} (h : part.Lawful room) (expressible : w.Expressible b)
    (readBack : w.NumbersReadBack b) (identities : part.identities c ⊆ w.identities b)
    (numbers : part.numbers c ⊆ w.numbers b) : (part.toJson c).Plain room :=
  h.plain c (expressible.of_subset identities numbers) (readBack.of_subset numbers)

theorem Lawful.roundTrips {w : WireForm β} {room : Nat} (h : w.Lawful room)
    (shallow : room ≤ Json.nestingLimit) : w.RoundTrips := by
  have hback (b : β) (expressible : w.Expressible b) (readBack : w.NumbersReadBack b) :
      w.read (w.write b) = .ok b := by
    have hread := (h.plain b expressible readBack).read_write shallow
    rw [read, write, hread, Json.Document.accept, h.ofJson_toJson b expressible]
    rfl
  -- whatever was read from a text can be expressed, so that it is read back once more
  refine ⟨hback, fun s b hread => hback b ?_⟩
  obtain ⟨b', hdecode, haccept⟩ := Json.bind_eq_ok_iff.1 hread
  split at haccept
  · cases haccept
  · cases haccept
    exact h.yields _ b (Json.inRange_read s) hdecode

end WireForm

/-! ## Parts of forms -/

namespace Json

theorem hasKey_ofFloat (x : Float) : HasKey (ofFloat x) := by
  rw [ofFloat]
  split <;> trivial

theorem Decode.float_ofFloat {x : Float} (h : x.isFinite = true) :
    Decode.float (ofFloat x) = .ok x := by
  rw [ofFloat, if_pos h]
  rfl

theorem plain_ofFloat {x : Float} (h : x.isFinite = true) (readsBack : (Number.real x).ReadsBack)
    (room : Nat) : (ofFloat x).Plain room := by
  rw [ofFloat, if_pos h]
  simpa [Plain] using readsBack

theorem plain_natural {n : Nat} (h : n < 0x100000000) (room : Nat) : (natural n).Plain room := by
  simpa [natural, Plain] using Number.readsBack_natural (Nat.lt_trans h (by decide))

theorem plain_text (s : String) (room : Nat) : (text s).Plain room := by
  simp [Plain]

theorem plain_bool (b : Bool) (room : Nat) : (bool b).Plain room := by
  simp [Plain]

theorem plain_ofText? (s : Option String) (room : Nat) : (ofText? s).Plain room := by
  cases s <;> simp [ofText?, Plain]

theorem plain_object {members : List (String × Json)} {room : Nat}
    (h : ∀ e ∈ members, e.2.Plain room) : (object members).Plain (room + 1) :=
  allMembersPlain_iff.2 h

theorem plain_array {items : List Json} {room : Nat} (h : ∀ j ∈ items, j.Plain room) :
    (array items).Plain (room + 1) :=
  allPlain_iff.2 h

theorem inRange_filter {members : List (String × Json)} (h : (object members).InRange)
    (p : String × Json → Bool) : (object (members.filter p)).InRange :=
  allMembersInRange_iff.2 fun e he => allMembersInRange_iff.1 h e (List.mem_filter.1 he).1

/-- A value with its tag in front is read from its fields, if none of them has the name of the
    tag. -/
theorem Decode.tagged_cons {β : Type} {ofTagged : Json → Json → Except Flaw β} {name : String}
    {tag : Json} {members : List (String × Json)} {b : β}
    (usable : (object ((name, tag) :: members)).isUsable = true)
    (fresh : ∀ e ∈ members, e.1 ≠ name) (h : ofTagged tag (.object members) = .ok b) :
    tagged name ofTagged (.object ((name, tag) :: members)) = .ok b := by
  have htag : ((name, tag) :: members).filter (·.1 = name) = [(name, tag)] := by
    simpa [List.filter_eq_nil_iff] using fresh
  have hfields : ((name, tag) :: members).filter (·.1 ≠ name) = members := by
    simpa [List.filter_eq_self] using fresh
  simp only [tagged, usable, htag, hfields, h]
  rfl

/-- Every value that is read from its fields satisfies `P`, whatever the tag is. -/
theorem Decode.yields_tagged {β : Type} {P : β → Prop} {ofTagged : Json → Json → Except Flaw β}
    (name : String) (h : ∀ tag, Decoder.Yields (ofTagged tag) P) :
    Decoder.Yields (tagged name ofTagged) P := by
  intro j b hrange hread
  simp only [tagged] at hread
  split at hread
  · cases hread
  · rw [mapError_eq_ok_iff] at hread
    split at hread
    · split at hread
      · exact h _ _ b (inRange_filter hrange _) hread
      · cases hread
    · next tag fields _ => exact h tag (.array fields) b hrange.2 hread
    · cases hread

theorem mapM_map {β γ : Type} {f : γ → Except Flaw β} {g : β → γ} {l : List β}
    (h : ∀ b ∈ l, f (g b) = .ok b) : (l.map g).mapM f = .ok l := by
  induction l with
  | nil => rfl
  | cons b rest ih =>
    rw [List.forall_mem_cons] at h
    rw [List.map_cons, List.mapM_cons, h.1, ih h.2]
    rfl

theorem Decode.list_map {β : Type} {decode : Decoder β} {encode : β → Json} {bs : List β}
    (h : ∀ b ∈ bs, decode (encode b) = .ok b) :
    Decode.list decode (.array (bs.map encode)) = .ok bs :=
  mapM_map h

theorem Decode.dict_map {β : Type} {decode : Decoder β} {encode : β → Json}
    (hasKey : ∀ b, HasKey (encode b)) (h : ∀ b, decode (encode b) = .ok b) (d : Dict String β) :
    Decode.dict decode (.object (d.entries.map fun (key, b) => (key, encode b))) = .ok d := by
  rw [dict, mapM_map (l := d.entries) fun (key, b) _ => ?_]
  · exact congrArg Except.ok d.ofPairs_entries
  · dsimp only
    split
    · next hkeyless => exact absurd (hasKey b) (by rw [hkeyless]; exact id)
    · rw [h b]
      rfl

end Json

end QueryCanvas
