/-
  QueryCanvas.Proofs.Json.Record

  Reading records field by field.

  `Fills` says which members of an object make up the value of a record. The
  members of two records side by side make up the pair of their values
  (`Fills.and`), so that a record is read back from an object with its fields in
  order. What all values of a record have in common is said by `Yields`, which
  goes from the fields to the record in the same way.
-/

import QueryCanvas.Json.Record
import QueryCanvas.Proofs.Json.Range

namespace QueryCanvas.Json

variable {β γ : Type}

/-! ## Steps that may fail -/

theorem bind_eq_ok_iff {x : Except Flaw β} {f : β → Except Flaw γ} {c : γ} :
    x >>= f = .ok c ↔ ∃ b, x = .ok b ∧ f b = .ok c := by
  rcases x with flaw | b
  · constructor
    · intro h
      cases h
    · rintro ⟨b, hb, -⟩
      cases hb
  · exact ⟨fun h => ⟨b, rfl, h⟩, fun ⟨_, hb, hc⟩ => Except.ok.inj hb ▸ hc⟩

theorem map_eq_ok_iff {x : Except Flaw β} {f : β → γ} {c : γ} :
    x.map f = .ok c ↔ ∃ b, x = .ok b ∧ f b = c := by
  rcases x with flaw | b <;> simp [Except.map]

theorem mapError_eq_ok_iff {x : Except Flaw β} {f : Flaw → Flaw} {b : β} :
    x.mapError f = .ok b ↔ x = .ok b := by
  rcases x with flaw | b <;> simp [Except.mapError]

/-- A fold that goes along with another one ends with what the other one ends with. -/
theorem foldlM_map {σ τ ε : Type} {step : σ → ε → Except Flaw σ} {step' : τ → ε → Except Flaw τ}
    (f : σ → τ) {l : List ε} (along : ∀ e ∈ l, ∀ s, step' (f s) e = (step s e).map f) (s : σ) :
    l.foldlM step' (f s) = (l.foldlM step s).map f := by
  induction l generalizing s with
  | nil => rfl
  | cons e rest ih =>
    rw [List.forall_mem_cons] at along
    rw [List.foldlM_cons, List.foldlM_cons, along.1]
    rcases step s e with flaw | next
    · rfl
    · exact ih along.2 next

/-- What every step keeps holds at the end of a fold. -/
theorem foldlM_keeps {σ ε : Type} {step : σ → ε → Except Flaw σ} {inv : σ → Prop} {l : List ε}
    (keeps : ∀ e ∈ l, ∀ s s', inv s → step s e = .ok s' → inv s') {s s' : σ} (h : inv s)
    (fold : l.foldlM step s = .ok s') : inv s' := by
  induction l generalizing s with
  | nil =>
    cases fold
    exact h
  | cons e rest ih =>
    rw [List.forall_mem_cons] at keeps
    rw [List.foldlM_cons] at fold
    obtain ⟨next, hnext, hrest⟩ := bind_eq_ok_iff.1 fold
    exact ih keeps.2 (keeps.1 s next h hnext) hrest

/-! ## Members that make up a record -/

/-- True for values that stand beside a key. -/
def HasKey : Json → Prop
  | keyless _ => False
  | _ => True

namespace Record

variable {r : Record β} {q : Record γ} {members members' : List (String × Json)} {b : β} {c : γ}

/-- True if no field has the name. -/
def Ignores (r : Record β) (name : String) : Prop := ∀ j slots, r.fillNamed name j slots = none

/-- The members are fields of the record, and the value that they make up is `b`. -/
structure Fills (r : Record β) (members : List (String × Json)) (b : β) : Prop where
  keyed : ∀ e ∈ members, HasKey e.2
  known : ∀ e ∈ members, ∀ slots, (r.fillNamed e.1 e.2 slots).isSome
  filled : ∃ slots, members.foldlM r.takeMember r.blank = .ok slots ∧ r.closeNamed slots = .ok b

theorem takeMember_of_hasKey {entry : String × Json} (keyed : HasKey entry.2) (slots : r.Slots) :
    r.takeMember slots entry = ((r.fillNamed entry.1 entry.2 slots).getD
      ((Decode.skip entry.2).map fun _ => slots)) := by
  obtain ⟨key, j⟩ := entry
  rw [takeMember]
  split
  · next value hvalue => exact absurd keyed (by rw [show j = keyless value from hvalue]; exact id)
  · split
    · next filled hfilled => rw [hfilled]; rfl
    · next hnone => rw [hnone]; rfl

/-- A field of the first record is taken by the first record. -/
theorem takeMember_and_left {entry : String × Json} (keyed : HasKey entry.2)
    (known : ∀ slots, (r.fillNamed entry.1 entry.2 slots).isSome) (slots : (r.and q).Slots) :
    (r.and q).takeMember slots entry = (r.takeMember slots.1 entry).map (·, slots.2) := by
  rw [takeMember_of_hasKey keyed, takeMember_of_hasKey keyed]
  obtain ⟨filled, hfilled⟩ := Option.isSome_iff_exists.1 (known slots.1)
  simp [and, hfilled]

/-- A field of the second record is taken by the second record if the first one has none of that
    name. -/
theorem takeMember_and_right {entry : String × Json} (keyed : HasKey entry.2)
    (ignored : r.Ignores entry.1) (known : ∀ slots, (q.fillNamed entry.1 entry.2 slots).isSome)
    (slots : (r.and q).Slots) :
    (r.and q).takeMember slots entry = (q.takeMember slots.2 entry).map (slots.1, ·) := by
  rw [takeMember_of_hasKey keyed, takeMember_of_hasKey keyed]
  obtain ⟨filled, hfilled⟩ := Option.isSome_iff_exists.1 (known slots.2)
  simp [and, ignored entry.2 slots.1, hfilled]

/-- The members of two records side by side make up the pair of their values. -/
theorem Fills.and (hr : r.Fills members b) (hq : q.Fills members' c)
    (ignored : ∀ e ∈ members', r.Ignores e.1) : (r.and q).Fills (members ++ members') (b, c) := by
  obtain ⟨slots, hslots, hb⟩ := hr.filled
  obtain ⟨slots', hslots', hc⟩ := hq.filled
  -- the first members leave the slots of the second record blank, and the second members leave
  -- those of the first one as they were filled
  refine ⟨List.forall_mem_append.2 ⟨hr.keyed, hq.keyed⟩,
    List.forall_mem_append.2 ⟨fun e he s => ?_, fun e he s => ?_⟩, (slots, slots'), ?_, ?_⟩
  · obtain ⟨filled, hfilled⟩ := Option.isSome_iff_exists.1 (hr.known e he s.1)
    simp [Record.and, hfilled]
  · obtain ⟨filled, hfilled⟩ := Option.isSome_iff_exists.1 (hq.known e he s.2)
    simp [Record.and, ignored e he e.2 s.1, hfilled]
  · have hfirst : members.foldlM (r.and q).takeMember (r.and q).blank =
        (members.foldlM r.takeMember r.blank).map (·, q.blank) :=
      foldlM_map (·, q.blank)
        (fun e he s => takeMember_and_left (hr.keyed e he) (hr.known e he) (s, q.blank)) r.blank
    have hsecond : members'.foldlM (r.and q).takeMember (slots, q.blank) =
        (members'.foldlM q.takeMember q.blank).map (slots, ·) :=
      foldlM_map (slots, ·) (fun e he s => takeMember_and_right (hq.keyed e he) (ignored e he)
        (hq.known e he) (slots, s)) q.blank
    rw [List.foldlM_append, hfirst, hslots]
    exact hsecond.trans (by rw [hslots']; rfl)
  · simp only [Record.and, hb, hc]
    rfl

theorem Fills.map (h : r.Fills members b) (f : β → γ) : (r.map f).Fills members (f b) := by
  obtain ⟨slots, hslots, hb⟩ := h.filled
  have hsame : members.foldlM (r.map f).takeMember r.blank =
      (members.foldlM r.takeMember r.blank).map id := by
    refine foldlM_map id (fun e he s => ?_) r.blank
    rw [Except.map_id, takeMember_of_hasKey (h.keyed e he)]
    exact takeMember_of_hasKey (r := r.map f) (h.keyed e he) s
  refine ⟨h.keyed, h.known, slots, ?_, ?_⟩
  · exact hsame.trans (by rw [hslots]; rfl)
  · simp only [Record.map, hb]
    rfl

/-- A record without fields is made up of no members. -/
theorem fills_empty : (empty b).Fills [] b :=
  ⟨by simp, by simp, (), rfl, rfl⟩

theorem Fills.decode (h : r.Fills members b) : r.decode (.object members) = .ok b := by
  obtain ⟨slots, hslots, hb⟩ := h.filled
  rw [Record.decode, hslots]
  exact hb

section Fields

variable {name : String} {decode : Decoder β} {absent short : Option β} {j : Json}

theorem fills_fieldOr (keyed : HasKey j) (h : decode j = .ok b) :
    (fieldOr name decode absent short).Fills [(name, j)] b := by
  refine ⟨by simpa using keyed, by simp [fieldOr], some b, ?_, rfl⟩
  rw [List.foldlM_cons, takeMember_of_hasKey keyed]
  simp [fieldOr, h]
  rfl

theorem fills_field (keyed : HasKey j) (h : decode j = .ok b) :
    (field name decode).Fills [(name, j)] b :=
  fills_fieldOr keyed h

/-- A field that may be left out. -/
theorem fills_absent : (fieldOr name decode (some b) short).Fills [] b :=
  ⟨by simp, by simp, none, rfl, rfl⟩

theorem ignores_fieldOr {other : String} (h : other ≠ name) :
    (fieldOr name decode absent short).Ignores other := by
  intro j slot
  simp [fieldOr, h]

/-- A field in front of the fields of another record. -/
theorem Fills.cons (keyed : HasKey j) (h : decode j = .ok b) (fresh : ∀ e ∈ members', e.1 ≠ name)
    (hq : q.Fills members' c) :
    ((fieldOr name decode absent short).and q).Fills ((name, j) :: members') (b, c) :=
  (fills_fieldOr keyed h).and hq fun e he => ignores_fieldOr (fresh e he)

end Fields

end Record

/-! ## What all values have in common -/

/-- Every value that is read from numbers in range satisfies `P`. -/
def Decoder.Yields (decode : Decoder β) (P : β → Prop) : Prop :=
  ∀ j b, j.InRange → decode j = .ok b → P b

namespace Decode

variable {decode : Decoder β} {P : β → Prop}

theorem yields_true : Decoder.Yields decode fun _ => True := fun _ _ _ _ => trivial

theorem yields_float : Decoder.Yields float (·.isFinite = true) := by
  intro j x hrange hread
  cases j with
  | number n =>
    cases n with
    | natural n =>
      cases hread
      exact Binary64.isFinite_ofNat hrange
    | negative n =>
      cases hread
      exact Binary64.isFinite_neg (Binary64.isFinite_ofNat hrange)
    | real y =>
      cases hread
      exact hrange
    | beyond => cases hread
  | _ => cases hread

theorem yields_naturalBelow (bound : Nat) : Decoder.Yields (naturalBelow bound) (· < bound) := by
  intro j n hrange hread
  cases j with
  | number m =>
    cases m with
    | natural m =>
      rw [naturalBelow] at hread
      split at hread
      · cases hread
        assumption
      · cases hread
    | _ => cases hread
  | _ => cases hread

theorem yields_list (h : Decoder.Yields decode P) :
    Decoder.Yields (list decode) (∀ b ∈ ·, P b) := by
  intro j bs hrange hread
  cases j with
  | array items =>
    have hitems : ∀ item ∈ items, item.InRange := allInRange_iff.1 hrange
    change items.mapM decode = .ok bs at hread
    clear hrange
    induction items generalizing bs with
    | nil =>
      cases hread
      simp
    | cons item rest ih =>
      rw [List.forall_mem_cons] at hitems
      rw [List.mapM_cons] at hread
      obtain ⟨b, hb, hrest⟩ := bind_eq_ok_iff.1 hread
      obtain ⟨rest', hrest', hsame⟩ := bind_eq_ok_iff.1 hrest
      cases hsame
      exact List.forall_mem_cons.2 ⟨h item b hitems.1 hb, ih rest' hitems.2 hrest'⟩
  | _ => cases hread

end Decode

namespace Record

variable {r : Record β} {q : Record γ} {P : β → Prop} {Q : γ → Prop}

/-- A condition on slots that holds at the beginning, that is kept when slots are filled from
    numbers in range, and under which the value of the slots satisfies `P`. -/
structure Keeps (r : Record β) (inv : r.Slots → Prop) (P : β → Prop) : Prop where
  blank : inv r.blank
  fillNamed : ∀ name j slots filled, j.InRange → inv slots →
    r.fillNamed name j slots = some (.ok filled) → inv filled
  fillNext : ∀ j slots filled, j.InRange → inv slots →
    r.fillNext j slots = some (.ok filled) → inv filled
  closeNamed : ∀ slots b, inv slots → r.closeNamed slots = .ok b → P b
  closePlaced : ∀ slots b, inv slots → r.closePlaced slots = .ok b → P b

/-- Every value of the record that is read from numbers in range satisfies `P`. -/
def Yields (r : Record β) (P : β → Prop) : Prop := ∃ inv, r.Keeps inv P

theorem yields_fieldOr {name : String} {decode : Decoder β} {absent short : Option β}
    (h : Decoder.Yields decode P) (habsent : ∀ b, absent = some b → P b)
    (hshort : ∀ b, short = some b → P b) : (fieldOr name decode absent short).Yields P := by
  have hfilled {j : Json} {filled : Option β} (hrange : j.InRange)
      (hread : (decode j).map some = .ok filled) : ∀ b, filled = some b → P b := by
    obtain ⟨b, hb, rfl⟩ := map_eq_ok_iff.1 hread
    intro b' hsame
    cases hsame
    exact h j b hrange hb
  have hclosed {slot default : Option β} {b : β} (hslot : ∀ b, slot = some b → P b)
      (hdefault : ∀ b, default = some b → P b)
      (hclose : (slot <|> default).elim (.error .mismatch) .ok = (.ok b : Except Flaw β)) :
      P b := by
    cases slot with
    | some b' =>
      cases hclose
      exact hslot _ rfl
    | none =>
      cases default with
      | some b' =>
        cases hclose
        exact hdefault _ rfl
      | none => cases hclose
  -- the invariant: what is in the slot satisfies `P`
  refine ⟨fun slot => ∀ b, slot = some b → P b, by simp [fieldOr], ?_, ?_,
    fun slot b hslot => hclosed hslot habsent, fun slot b hslot => hclosed hslot hshort⟩
  · intro key j slot filled hrange hslot hfill
    simp only [fieldOr] at hfill
    split at hfill
    · split at hfill
      · cases hfill
      · exact hfilled hrange (Option.some.inj hfill)
    · cases hfill
  · intro j slot filled hrange hslot hfill
    simp only [fieldOr] at hfill
    split at hfill
    · cases hfill
    · exact hfilled hrange (Option.some.inj hfill)

theorem yields_field {name : String} {decode : Decoder β} (h : Decoder.Yields decode P) :
    (field name decode).Yields P :=
  yields_fieldOr h (by simp) (by simp)

theorem yields_empty {b : β} (h : P b) : (empty b).Yields P := by
  refine ⟨fun _ => True, trivial, fun _ _ _ _ _ _ _ => trivial, fun _ _ _ _ _ _ => trivial,
    fun _ _ _ hclose => ?_, fun _ _ _ hclose => ?_⟩
  all_goals
    cases hclose
    exact h

theorem Yields.and (hr : r.Yields P) (hq : q.Yields Q) :
    (r.and q).Yields fun pair => P pair.1 ∧ Q pair.2 := by
  obtain ⟨inv, hinv⟩ := hr
  obtain ⟨inv', hinv'⟩ := hq
  refine ⟨fun slots => inv slots.1 ∧ inv' slots.2, ⟨hinv.blank, hinv'.blank⟩, ?_, ?_, ?_, ?_⟩
  · intro name j slots filled hrange hslots hfill
    simp only [Record.and] at hfill
    split at hfill
    · next first hfirst =>
      obtain ⟨slot, hslot, rfl⟩ := map_eq_ok_iff.1 (Option.some.inj hfill)
      exact ⟨hinv.fillNamed name j slots.1 slot hrange hslots.1 (hslot ▸ hfirst), hslots.2⟩
    · obtain ⟨second, hsecond, hmap⟩ := Option.map_eq_some_iff.1 hfill
      obtain ⟨slot, hslot, rfl⟩ := map_eq_ok_iff.1 hmap
      exact ⟨hslots.1, hinv'.fillNamed name j slots.2 slot hrange hslots.2 (hslot ▸ hsecond)⟩
  · intro j slots filled hrange hslots hfill
    simp only [Record.and] at hfill
    split at hfill
    · next first hfirst =>
      obtain ⟨slot, hslot, rfl⟩ := map_eq_ok_iff.1 (Option.some.inj hfill)
      exact ⟨hinv.fillNext j slots.1 slot hrange hslots.1 (hslot ▸ hfirst), hslots.2⟩
    · obtain ⟨second, hsecond, hmap⟩ := Option.map_eq_some_iff.1 hfill
      obtain ⟨slot, hslot, rfl⟩ := map_eq_ok_iff.1 hmap
      exact ⟨hslots.1, hinv'.fillNext j slots.2 slot hrange hslots.2 (hslot ▸ hsecond)⟩
  · intro slots pair hslots hclose
    obtain ⟨b, hb, hrest⟩ := bind_eq_ok_iff.1 hclose
    obtain ⟨c, hc, hsame⟩ := bind_eq_ok_iff.1 hrest
    cases hsame
    exact ⟨hinv.closeNamed _ b hslots.1 hb, hinv'.closeNamed _ c hslots.2 hc⟩
  · intro slots pair hslots hclose
    obtain ⟨b, hb, hrest⟩ := bind_eq_ok_iff.1 hclose
    obtain ⟨c, hc, hsame⟩ := bind_eq_ok_iff.1 hrest
    cases hsame
    exact ⟨hinv.closePlaced _ b hslots.1 hb, hinv'.closePlaced _ c hslots.2 hc⟩

theorem Yields.map (h : r.Yields P) {f : β → γ} (hf : ∀ b, P b → Q (f b)) :
    (r.map f).Yields Q := by
  obtain ⟨inv, hinv⟩ := h
  refine ⟨inv, hinv.blank, hinv.fillNamed, hinv.fillNext, fun slots c hslots hclose => ?_,
    fun slots c hslots hclose => ?_⟩
  · obtain ⟨b, hb, rfl⟩ := map_eq_ok_iff.1 hclose
    exact hf b (hinv.closeNamed slots b hslots hb)
  · obtain ⟨b, hb, rfl⟩ := map_eq_ok_iff.1 hclose
    exact hf b (hinv.closePlaced slots b hslots hb)

/-- Members that no field takes leave the slots as they are. -/
theorem Keeps.takeMember {inv : r.Slots → Prop} (h : r.Keeps inv P) {entry : String × Json}
    (hrange : entry.2.InRange) {slots filled : r.Slots} (hslots : inv slots)
    (htake : r.takeMember slots entry = .ok filled) : inv filled := by
  rw [Record.takeMember] at htake
  split at htake
  · cases htake
  · split at htake
    · next hfill => exact h.fillNamed entry.1 entry.2 slots filled hrange hslots (htake ▸ hfill)
    · obtain ⟨-, -, rfl⟩ := map_eq_ok_iff.1 htake
      exact hslots

theorem Keeps.takeItem {inv : r.Slots → Prop} (h : r.Keeps inv P) {j : Json}
    (hrange : j.InRange) {slots filled : r.Slots} (hslots : inv slots)
    (htake : r.takeItem slots j = .ok filled) : inv filled := by
  rw [Record.takeItem] at htake
  split at htake
  · next hfill => exact h.fillNext j slots filled hrange hslots (htake ▸ hfill)
  · cases htake

theorem Yields.decode (h : r.Yields P) : Decoder.Yields r.decode P := by
  obtain ⟨inv, hinv⟩ := h
  intro j b hrange hread
  cases j with
  | object members =>
    have hmembers : ∀ e ∈ members, e.2.InRange := allMembersInRange_iff.1 hrange
    obtain ⟨slots, hslots, hclose⟩ := bind_eq_ok_iff.1 hread
    exact hinv.closeNamed slots b (foldlM_keeps
      (fun e he s s' hs hstep => hinv.takeMember (hmembers e he) hs hstep) hinv.blank hslots) hclose
  | array items =>
    have hitems : ∀ item ∈ items, item.InRange := allInRange_iff.1 hrange
    obtain ⟨slots, hslots, hclose⟩ := bind_eq_ok_iff.1 hread
    exact hinv.closePlaced slots b (foldlM_keeps
      (fun item hitem s s' hs hstep => hinv.takeItem (hitems item hitem) hs hstep)
      hinv.blank hslots) hclose
  | _ => cases hread

end Record

end QueryCanvas.Json
