/-
  QueryCanvas.Proofs.Prefix.Table

  The two directions of a prefix table, which are written separately and have
  to agree: which prefix a namespace has, and which namespace owns a prefix.

  The table of a session never takes a prefix back. A namespace is entered as
  pending when it is first asked for, and what it is waiting for is answered
  once; then its entry stays. Therefore an owner keeps what it owns, and every
  prefix in use has an owner, though not every user of a prefix owns it.
-/

import Mathlib.Tactic.ByContra
import QueryCanvas.Session.Network

namespace QueryCanvas

/-- A prefix that can be told from the local name behind it. -/
structure IsShort (short : String) : Prop where
  nonempty : short ≠ ""
  no_colon : ':' ∉ short.toList

/-- An answer of the form `prefix:a`. -/
def IsShortened (answer : String) : Prop := ∃ short, IsShort short ∧ answer = short ++ ":a"

theorem prefixOfAnswer?_append (short : String) : prefixOfAnswer? (short ++ ":a") = some short := by
  have hcolon : (":a" : String).toList = [':', 'a'] := rfl
  simp [prefixOfAnswer?, hcolon]

namespace PrefixTable

/-! ## Looking -/

theorem peek?_of_ne {t : PrefixTable} {expansion : String} (h : expansion ≠ t.base)
    {short : String} :
    t.peek? expansion = some short ↔ t.entries.get? expansion = some (.resolved short) := by
  unfold peek?
  rw [if_neg h]
  split <;> simp_all

@[simp] theorem peek?_base (t : PrefixTable) : t.peek? t.base = some "" := by simp [peek?]

/-- What `resolve` answers is the known prefix, if there is one. -/
theorem resolve_eq_peek? (t : PrefixTable) (expansion : String) :
    (t.resolve expansion).2 = (t.peek? expansion).getD expansion := by
  unfold resolve peek?
  split
  · rfl
  · cases t.entries.get? expansion with
    | none => rfl
    | some entry => cases entry <;> rfl

/-! ## Asking and answering, case by case -/

/-- Entering a request for a namespace that nothing is known about takes no prefix away. -/
theorem setEntry_pending {t : PrefixTable} {expansion : String}
    (unknown : t.entries.get? expansion = none) (generation : Nat) :
    t.setEntry expansion (.pending generation) =
      { t with entries := t.entries.insert expansion (.pending generation) } := by
  simp only [setEntry, disowned, unknown]

/-- Asking changes nothing for the base namespace and for those that something is known about. For
    any other it queues a request of the next generation. -/
theorem resolve_cases (t : PrefixTable) (expansion : String) :
    (t.resolve expansion).1 = t ∨
      expansion ≠ t.base ∧ t.entries.get? expansion = none ∧
        (t.resolve expansion).1 =
          { t with
            entries := t.entries.insert expansion (.pending (t.generation + 1))
            queue := t.queue ++ [⟨expansion, t.generation + 1⟩]
            generation := t.generation + 1 } := by
  unfold resolve
  split
  · exact .inl rfl
  next foreign =>
  split
  · exact .inl rfl
  · exact .inl rfl
  · exact .inl rfl
  next unknown =>
  exact .inr ⟨foreign, unknown, by simp only [setEntry_pending unknown]⟩

/-- The namespace of the request is waiting for this very request. -/
def Awaits (t : PrefixTable) (request : PrefixRequest) : Prop :=
  t.entries.get? request.expansion = some (.pending request.generation)

theorem complete_of_awaited {t : PrefixTable} {request : PrefixRequest} (h : t.Awaits request)
    (answer : Except ServiceError String) :
    t.complete request answer = (t.setEntry request.expansion (entryOf answer), true) := if_pos h

theorem complete_of_unawaited {t : PrefixTable} {request : PrefixRequest} (h : ¬ t.Awaits request)
    (answer : Except ServiceError String) : t.complete request answer = (t, false) := if_neg h

/-! ## The empty namespace -/

/-- The namespace of IRIs without separators was never asked for. -/
def EmptyUnasked (t : PrefixTable) : Prop := t.entries.get? "" = none

namespace EmptyUnasked

variable {t : PrefixTable}

theorem resolve (h : t.EmptyUnasked) {expansion : String} (hempty : expansion ≠ "") :
    (t.resolve expansion).1.EmptyUnasked := by
  rcases t.resolve_cases expansion with hsame | ⟨-, -, hasked⟩
  · exact hsame.symm ▸ h
  · rw [hasked]
    simpa [EmptyUnasked, hempty] using h

/-- Whatever the service answers, it was asked about another namespace. -/
theorem complete (h : t.EmptyUnasked) (request : PrefixRequest)
    (answer : Except ServiceError String) : (t.complete request answer).1.EmptyUnasked := by
  by_cases hawaits : t.Awaits request
  · have hother : request.expansion ≠ "" := by
      intro hempty
      rw [Awaits, hempty, h] at hawaits
      cases hawaits
    rw [complete_of_awaited hawaits]
    simpa [EmptyUnasked, setEntry, hother] using h
  · rw [complete_of_unawaited hawaits]
    exact h

end EmptyUnasked

/-! ## The invariant -/

/-- Namespaces and owners agree, and the namespaces known without asking are never asked for. -/
structure Sound (t : PrefixTable) : Prop where
  owner_resolved : ∀ short expansion, t.owners.get? short = some expansion →
    t.entries.get? expansion = some (.resolved short)
  resolved_owned : ∀ expansion short, t.entries.get? expansion = some (.resolved short) →
    (t.owners.get? short).isSome
  resolved_short : ∀ expansion short, t.entries.get? expansion = some (.resolved short) →
    IsShort short
  base_unasked : t.entries.get? t.base = none
  empty_unasked : t.entries.get? "" = none

/-- The namespace has no prefix yet that could be taken back. -/
def Unresolved (t : PrefixTable) (expansion : String) : Prop :=
  ∀ short, t.entries.get? expansion ≠ some (.resolved short)

theorem disowned_of_unresolved {t : PrefixTable} {expansion : String}
    (h : t.Unresolved expansion) : t.disowned expansion = t.owners := by
  unfold disowned
  split
  · next short hshort => exact absurd hshort (h short)
  · rfl

/-- A prefix without an owner goes to the namespace that is entered with it. -/
theorem owner_setEntry {t : PrefixTable} {expansion : String} (h : t.Unresolved expansion)
    (entry : PrefixEntry) (short : String) :
    (t.setEntry expansion entry).owners.get? short =
      (t.owners.get? short).or (if entry = .resolved short then some expansion else none) := by
  unfold setEntry
  rw [disowned_of_unresolved h]
  cases entry with
  | pending generation => simp
  | failed => simp
  | resolved taken =>
    dsimp only
    by_cases hshort : taken = short
    · subst hshort
      cases howner : t.owners.get? taken <;> simp [howner]
    · split <;> simp [hshort]

/-- Entering a namespace does not change what is known about the others. -/
theorem peek?_setEntry_of_ne {t : PrefixTable} {expansion other : String} (h : expansion ≠ other)
    (entry : PrefixEntry) : (t.setEntry expansion entry).peek? other = t.peek? other := by
  simp [peek?, setEntry, h]

namespace Sound

variable {t : PrefixTable}

theorem new (base : String) : (PrefixTable.new base).Sound where
  owner_resolved short expansion h := by simp [PrefixTable.new] at h
  resolved_owned expansion short h := by simp [PrefixTable.new] at h
  resolved_short expansion short h := by simp [PrefixTable.new] at h
  base_unasked := rfl
  empty_unasked := rfl

/-- The owner of a prefix in use: a namespace with this prefix, though maybe not the one that the
    prefix was looked up for. -/
theorem owner_of_peek? (h : t.Sound) {expansion short : String}
    (hpeek : t.peek? expansion = some short) :
    ∃ owner, t.expansionOf? short = some owner ∧ t.peek? owner = some short := by
  by_cases hbase : expansion = t.base
  -- the base owns the empty prefix
  · subst hbase
    obtain rfl : "" = short := by simpa using hpeek
    exact ⟨t.base, rfl, t.peek?_base⟩
  · rw [peek?_of_ne hbase] at hpeek
    obtain ⟨owner, howner⟩ := Option.isSome_iff_exists.1 (h.resolved_owned _ _ hpeek)
    have hne : short ≠ "" := (h.resolved_short _ _ hpeek).nonempty
    have hresolved := h.owner_resolved _ _ howner
    have hother : owner ≠ t.base := by
      rintro rfl
      rw [h.base_unasked] at hresolved
      cases hresolved
    exact ⟨owner, by simp [expansionOf?, hne, howner], (peek?_of_ne hother).2 hresolved⟩

theorem isShort_of_peek? (h : t.Sound) {expansion short : String} (hbase : expansion ≠ t.base)
    (hpeek : t.peek? expansion = some short) : IsShort short :=
  h.resolved_short _ _ ((peek?_of_ne hbase).1 hpeek)

/-- Entering something about a namespace without a prefix keeps the invariant. -/
theorem setEntry (h : t.Sound) {expansion : String} (unresolved : t.Unresolved expansion)
    (hbase : expansion ≠ t.base) (hempty : expansion ≠ "") {entry : PrefixEntry}
    (plain : ∀ short, entry = .resolved short → IsShort short) :
    (t.setEntry expansion entry).Sound where
  owner_resolved short owner howner := by
    rw [owner_setEntry unresolved, Option.or_eq_some_iff] at howner
    simp only [PrefixTable.setEntry, Dict.get?_insert]
    rcases howner with howner | ⟨-, howner⟩
    -- an old owner is another namespace, since this one had no prefix
    · have hresolved := h.owner_resolved _ _ howner
      have hne : expansion ≠ owner := fun heq => unresolved short (heq ▸ hresolved)
      rw [if_neg hne, hresolved]
    · split at howner
      · next hentry =>
        obtain rfl := Option.some.inj howner
        rw [if_pos rfl, hentry]
      · cases howner
  resolved_owned other short hother := by
    rw [owner_setEntry unresolved]
    simp only [PrefixTable.setEntry, Dict.get?_insert] at hother
    split at hother
    · rw [Option.some.inj hother, if_pos rfl]
      simp
    · simp [h.resolved_owned _ _ hother]
  resolved_short other short hother := by
    simp only [PrefixTable.setEntry, Dict.get?_insert] at hother
    split at hother
    · exact plain short (Option.some.inj hother)
    · exact h.resolved_short _ _ hother
  base_unasked := by simpa [PrefixTable.setEntry, hbase] using h.base_unasked
  empty_unasked := by simpa [PrefixTable.setEntry, hempty] using h.empty_unasked

/-! ## Asking and answering -/

theorem resolve (h : t.Sound) {expansion : String} (hempty : expansion ≠ "") :
    (t.resolve expansion).1.Sound := by
  rcases t.resolve_cases expansion with hsame | ⟨hbase, hnew, hasked⟩
  · exact hsame.symm ▸ h
  · have hentered : (t.setEntry expansion (.pending (t.generation + 1))).Sound :=
      h.setEntry (fun short hshort => by simp [hnew] at hshort) hbase hempty
        fun short hshort => by cases hshort
    rw [setEntry_pending hnew] at hentered
    rw [hasked]
    exact { hentered with }

theorem entryOf_short {answer : Except ServiceError String}
    (possible : ∀ shortened, answer = .ok shortened → IsShortened shortened) {short : String}
    (hentry : entryOf answer = .resolved short) : IsShort short := by
  cases answer with
  | error error => cases hentry
  | ok shortened =>
    obtain ⟨taken, htaken, rfl⟩ := possible shortened rfl
    rw [entryOf, prefixOfAnswer?_append] at hentry
    cases hentry
    exact htaken

theorem complete (h : t.Sound) (request : PrefixRequest) {answer : Except ServiceError String}
    (possible : ∀ shortened, answer = .ok shortened → IsShortened shortened) :
    (t.complete request answer).1.Sound := by
  unfold PrefixTable.complete
  split
  · next hpending =>
    -- what is pending has no prefix, and neither the base nor the empty text is ever pending
    refine h.setEntry (fun short hshort => ?_) ?_ ?_ fun _ => entryOf_short possible
    · rw [hpending] at hshort
      cases hshort
    · intro hbase
      rw [hbase, h.base_unasked] at hpending
      cases hpending
    · intro hempty
      rw [hempty, h.empty_unasked] at hpending
      cases hpending
  · exact h

theorem takeRequests (h : t.Sound) : t.takeRequests.1.Sound := { h with }

end Sound

/-! ## What stays known -/

@[simp] theorem peek?_takeRequests (t : PrefixTable) (expansion : String) :
    t.takeRequests.1.peek? expansion = t.peek? expansion := rfl

/-- Asking for a prefix changes no prefix. -/
theorem peek?_resolve (t : PrefixTable) (asked expansion : String) :
    (t.resolve asked).1.peek? expansion = t.peek? expansion := by
  rcases t.resolve_cases asked with hsame | ⟨hbase, hnew, hasked⟩
  · rw [hsame]
  · rw [hasked]
    by_cases hother : asked = expansion
    · subst hother
      simp [peek?, hbase, hnew]
    · simp [peek?, hother]

/-- Asking for a prefix changes no owner. -/
theorem expansionOf?_resolve (t : PrefixTable) (asked short : String) :
    (t.resolve asked).1.expansionOf? short = t.expansionOf? short := by
  rcases t.resolve_cases asked with hsame | ⟨-, -, hasked⟩
  · rw [hsame]
  · rw [hasked]
    rfl

/-- An answer takes no prefix back. -/
theorem peek?_complete (t : PrefixTable) (request : PrefixRequest)
    (answer : Except ServiceError String) {expansion short : String}
    (h : t.peek? expansion = some short) :
    (t.complete request answer).1.peek? expansion = some short := by
  unfold complete
  split
  · next hpending =>
    by_cases hasked : request.expansion = expansion
    -- a pending namespace with a known prefix can only be the base
    · subst hasked
      have hbase : request.expansion = t.base := by
        by_contra hne
        rw [peek?_of_ne hne, hpending] at h
        cases h
      simpa [peek?, setEntry, hbase] using h
    · exact (peek?_setEntry_of_ne hasked _).trans h
  · exact h

/-- An answer takes no prefix away from its owner. -/
theorem expansionOf?_complete (t : PrefixTable) (request : PrefixRequest)
    (answer : Except ServiceError String) {short expansion : String}
    (h : t.expansionOf? short = some expansion) :
    (t.complete request answer).1.expansionOf? short = some expansion := by
  by_cases hawaits : t.Awaits request
  · have hunresolved : t.Unresolved request.expansion := by
      intro taken htaken
      rw [Awaits, htaken] at hawaits
      cases hawaits
    rw [complete_of_awaited hawaits]
    by_cases hempty : short = ""
    -- the empty prefix is the base's, whatever is entered
    · subst hempty
      exact h
    · rw [expansionOf?, if_neg hempty] at h ⊢
      rw [owner_setEntry hunresolved, h]
      rfl
  · rw [complete_of_unawaited hawaits]
    exact h

end PrefixTable

/-! ## Lists of answers -/

namespace Session

/-- Every usable answer among `answers` is one of those that the prefix service may give. -/
def Answered (answered : String → Prop) (answers : PrefixAnswers) : Prop :=
  ∀ entry ∈ answers, ∀ shortened, entry.2 = .ok shortened → answered shortened

/-- What each answer keeps, a list of answers keeps. -/
theorem recordAnswers_induct {P : PrefixTable → Prop} {answers : PrefixAnswers} {t : PrefixTable}
    (h : P t) (complete : ∀ t, ∀ entry ∈ answers, P t → P (t.complete entry.1 entry.2).1) :
    P (recordAnswers t answers).1 := by
  refine List.foldlRecOn (motive := fun acc : PrefixTable × Nat => P acc.1) answers _ h ?_
  intro acc hacc entry he
  exact complete acc.1 entry he hacc

theorem sound_recordAnswers {t : PrefixTable} (h : t.Sound) {answers : PrefixAnswers}
    (possible : Answered IsShortened answers) : (recordAnswers t answers).1.Sound :=
  recordAnswers_induct h fun _ entry he ht => ht.complete entry.1 (possible entry he)

theorem emptyUnasked_recordAnswers {t : PrefixTable} (h : t.EmptyUnasked)
    (answers : PrefixAnswers) : (recordAnswers t answers).1.EmptyUnasked :=
  recordAnswers_induct h fun _ entry _ ht => ht.complete entry.1 entry.2

theorem peek?_recordAnswers (t : PrefixTable) (answers : PrefixAnswers) {expansion short : String}
    (h : t.peek? expansion = some short) :
    (recordAnswers t answers).1.peek? expansion = some short :=
  recordAnswers_induct (P := fun t => t.peek? expansion = some short) h
    fun t entry _ ht => t.peek?_complete entry.1 entry.2 ht

end Session

end QueryCanvas
