/-
  QueryCanvas.Proofs.Prefix.Agreement

  When the two directions of a prefix table agree, whatever is done to it.

  In a session they always do, since a namespace that has a prefix is never
  given another (`Sound`). A table by itself can be told prefixes, and there are
  two ways in which this takes the directions apart. The base can be told a
  prefix that nobody has: it then stands for the base, which is known by the
  empty prefix only. And a namespace can go over to another prefix while others
  have the one that it took first: nobody takes its place, so that their prefix
  stands for nothing any more.

  `agree_throughout_iff` says that there is no third way. It rests on
  `owner_setEntry_iff`, which describes who owns what after an entry.
-/

import QueryCanvas.Proofs.Prefix.Requests

namespace QueryCanvas.PrefixTable

/-! ## Agreement -/

/-- The two directions agree. -/
structure Agree (t : PrefixTable) : Prop where
  /-- A prefix that a namespace has stands for one that has it, if not for this one. -/
  used : ∀ expansion short, t.peek? expansion = some short →
    ∃ owner, t.expansionOf? short = some owner ∧ t.peek? owner = some short
  /-- What a prefix stands for has this prefix. -/
  owned : ∀ short expansion, t.expansionOf? short = some expansion →
    t.peek? expansion = some short

/-- The calls that take the directions apart: the base is told a prefix that stands for nothing, or
    a namespace is told another prefix than one that stands for it and that others have too. -/
def Parts (t : PrefixTable) : Call → Prop
  | .insert expansion short =>
    if expansion = t.base then t.expansionOf? short = none
    else ∃ old other, old ≠ short ∧ t.expansionOf? old = some expansion ∧
      other ≠ expansion ∧ t.peek? other = some old
  | _ => False

/-- Agreement is about what is seen from outside. -/
theorem Agree.congr {t t' : PrefixTable} (h : t.Agree)
    (peek : ∀ expansion, t'.peek? expansion = t.peek? expansion)
    (expansion : ∀ short, t'.expansionOf? short = t.expansionOf? short) : t'.Agree where
  used e short he := by
    rw [peek] at he
    obtain ⟨owner, howner, hshort⟩ := h.used e short he
    exact ⟨owner, (expansion short).trans howner, (peek owner).trans hshort⟩
  owned short e he := by
    rw [expansion] at he
    rw [peek]
    exact h.owned short e he

/-- Where nothing is known the base and the empty prefix have each other. -/
theorem agree_of_nothing_known {t : PrefixTable} (entries : ∀ e, t.entries.get? e = none)
    (owners : ∀ short, t.owners.get? short = none) : t.Agree where
  used e short he := by
    by_cases hbase : e = t.base
    · subst hbase
      rw [peek?_base] at he
      cases he
      exact ⟨t.base, rfl, peek?_base t⟩
    · rw [peek?_of_ne hbase, entries] at he
      cases he
  owned short e he := by
    by_cases hshort : short = ""
    · subst hshort
      obtain rfl : t.base = e := Option.some.inj he
      exact peek?_base t
    · rw [expansionOf?, if_neg hshort, owners] at he
      cases he

/-! ## Looking -/

variable {t : PrefixTable} {expansion short : String}

@[simp] theorem expansionOf?_empty (t : PrefixTable) : t.expansionOf? "" = some t.base := rfl

theorem expansionOf?_of_ne (h : short ≠ "") : t.expansionOf? short = t.owners.get? short :=
  if_neg h

/-- Only the base is known by the empty prefix in the other direction. -/
theorem ne_empty_of_expansionOf? (h : t.expansionOf? short = some expansion)
    (foreign : expansion ≠ t.base) : short ≠ "" := by
  rintro rfl
  rw [expansionOf?_empty] at h
  exact foreign (Option.some.inj h).symm

theorem peek?_setEntry_self (foreign : expansion ≠ t.base) (short : String) :
    (t.setEntry expansion (.resolved short)).peek? expansion = some short := by
  simp [peek?, setEntry, foreign]

/-! ## Owners -/

/-- What holds of every table: an owner has what it owns, and the base is never asked for. -/
structure Coherent (t : PrefixTable) : Prop where
  owner_resolved : ∀ short expansion, t.owners.get? short = some expansion →
    t.entries.get? expansion = some (.resolved short)
  base_not_pending : ∀ generation, t.entries.get? t.base ≠ some (.pending generation)

namespace Coherent

/-- A namespace gives up what it owns, and nothing else is given up. -/
theorem owner_disowned_iff (h : t.Coherent) (expansion short owner : String) :
    (t.disowned expansion).get? short = some owner ↔
      t.owners.get? short = some owner ∧ owner ≠ expansion := by
  unfold disowned
  split
  · next old hold =>
    -- it can own no other prefix than the one that it has
    have honly : ∀ other, t.owners.get? other = some expansion → other = old := by
      intro other hother
      have hresolved := h.owner_resolved other expansion hother
      rw [hold] at hresolved
      cases hresolved
      rfl
    split
    · next howns =>
      rw [Dict.get?_erase]
      by_cases hshort : old = short
      · subst hshort
        rw [if_pos rfl, howns]
        refine iff_of_false (by simp) ?_
        rintro ⟨howner, hne⟩
        exact hne (Option.some.inj howner).symm
      · rw [if_neg hshort]
        refine ⟨fun howner => ⟨howner, ?_⟩, And.left⟩
        rintro rfl
        exact hshort (honly short howner).symm
    · next howns =>
      refine ⟨fun howner => ⟨howner, ?_⟩, And.left⟩
      rintro rfl
      obtain rfl := honly short howner
      exact howns howner
  · next hnone =>
    refine ⟨fun howner => ⟨howner, ?_⟩, And.left⟩
    rintro rfl
    exact hnone short (h.owner_resolved short owner howner)

/-- After an entry the others own what they owned, and the namespace owns the prefix that it is
    entered with unless somebody else does. -/
theorem owner_setEntry_iff (h : t.Coherent) (expansion : String) (entry : PrefixEntry)
    (short owner : String) :
    (t.setEntry expansion entry).owners.get? short = some owner ↔
      t.owners.get? short = some owner ∧ owner ≠ expansion ∨
        entry = .resolved short ∧ owner = expansion ∧
          ∀ other, t.owners.get? short = some other → other = expansion := by
  have hkept := h.owner_disowned_iff expansion
  unfold setEntry
  cases entry with
  | pending generation => simp [hkept]
  | failed => simp [hkept]
  | resolved taken =>
    dsimp only
    cases hfree : (t.disowned expansion).get? taken with
    | some first =>
      obtain ⟨hfirst, hother⟩ := (hkept taken first).1 hfree
      rw [Option.isSome_some, if_pos rfl, hkept]
      refine ⟨.inl, ?_⟩
      rintro (hold | ⟨htaken, -, honly⟩)
      · exact hold
      · cases htaken
        exact absurd (honly first hfirst) hother
    | none =>
      rw [Option.isSome_none, if_neg Bool.false_ne_true, Dict.get?_insert]
      -- nobody else owns the prefix that is taken
      have honly : ∀ other, t.owners.get? taken = some other → other = expansion := by
        intro other hother
        by_contra hne
        rw [(hkept taken other).2 ⟨hother, hne⟩] at hfree
        cases hfree
      by_cases hshort : taken = short
      · subst hshort
        rw [if_pos rfl, Option.some_inj]
        constructor
        · exact fun howner => .inr ⟨rfl, howner.symm, honly⟩
        · rintro (⟨howner, hne⟩ | ⟨-, rfl, -⟩)
          · exact absurd (honly owner howner) hne
          · rfl
      · rw [if_neg hshort, hkept]
        refine ⟨.inl, ?_⟩
        rintro (hold | ⟨htaken, -⟩)
        · exact hold
        · cases htaken
          exact absurd rfl hshort

theorem new (base : String) : (PrefixTable.new base).Coherent where
  owner_resolved short expansion h := by simp [PrefixTable.new] at h
  base_not_pending generation h := by simp [PrefixTable.new] at h

theorem setEntry (h : t.Coherent) (expansion : String) {entry : PrefixEntry}
    (known : ∀ generation, entry ≠ .pending generation) :
    (t.setEntry expansion entry).Coherent where
  owner_resolved short owner howner := by
    show (t.entries.insert expansion entry).get? owner = some (.resolved short)
    rw [Dict.get?_insert]
    rcases (h.owner_setEntry_iff expansion entry short owner).1 howner with
      ⟨hold, hne⟩ | ⟨rfl, rfl, -⟩
    · rw [if_neg (Ne.symm hne)]
      exact h.owner_resolved short owner hold
    · rw [if_pos rfl]
  base_not_pending generation := by
    show (t.entries.insert expansion entry).get? t.base ≠ some (.pending generation)
    rw [Dict.get?_insert]
    split
    · exact fun hentry => known generation (Option.some.inj hentry)
    · exact h.base_not_pending generation

/-- Every call keeps the invariant. -/
theorem step {t' : PrefixTable} {call : Call} {note : Note} (h : t.Coherent)
    (hstep : Step t call t' note) : t'.Coherent := by
  cases hstep with
  | known expansion => exact h
  | @asked expansion foreign unknown =>
    refine ⟨fun short owner howner => ?_, fun generation => ?_⟩
    · have hresolved := h.owner_resolved short owner howner
      have hne : expansion ≠ owner := by
        rintro rfl
        rw [unknown] at hresolved
        cases hresolved
      rw [Dict.get?_insert, if_neg hne]
      exact hresolved
    · rw [Dict.get?_insert, if_neg foreign]
      exact h.base_not_pending generation
  | taken => exact { h with }
  | accepted answer awaited => exact h.setEntry _ fun generation => entryOf_ne_pending answer _
  | refused answer unawaited => exact h
  | inserted expansion short => exact h.setEntry _ fun generation hentry => by cases hentry
  | cleared =>
    exact ⟨fun short owner howner => by simp [PrefixTable.clear] at howner,
      fun generation => by simp [PrefixTable.clear]⟩

/-- Every run keeps the invariant. -/
theorem run (base : String) (calls : List Call) : ((PrefixTable.new base).run calls).1.Coherent :=
  runLogged_induct (P := fun (t : PrefixTable) (_ : List Note) => t.Coherent) (new base)
    fun t _ call _ h => h.step (step_perform t call)

end Coherent

/-! ## What an entry does to the agreement -/

/-- What is noted about a namespace that has no prefix, and gets none, is not seen. -/
theorem peek?_setEntry_of_silent (unresolved : t.Unresolved expansion) {entry : PrefixEntry}
    (silent : ∀ short, entry ≠ .resolved short) (other : String) :
    (t.setEntry expansion entry).peek? other = t.peek? other := by
  by_cases hother : expansion = other
  · subst hother
    by_cases hbase : expansion = t.base
    · subst hbase
      exact (peek?_base (t.setEntry t.base entry)).trans (peek?_base t).symm
    · ext short
      rw [peek?_of_ne (t := t.setEntry expansion entry) hbase, peek?_of_ne hbase]
      show (t.entries.insert expansion entry).get? expansion = _ ↔ _
      rw [Dict.get?_insert, if_pos rfl]
      exact iff_of_false (fun h => silent short (Option.some.inj h)) (unresolved short)
  · exact peek?_setEntry_of_ne hother entry

namespace Coherent

theorem agree_setEntry_of_silent (h : t.Coherent) (agree : t.Agree)
    (unresolved : t.Unresolved expansion) {entry : PrefixEntry}
    (silent : ∀ short, entry ≠ .resolved short) : (t.setEntry expansion entry).Agree := by
  refine agree.congr (peek?_setEntry_of_silent unresolved silent) fun short => ?_
  by_cases hshort : short = ""
  · subst hshort
    rfl
  · rw [expansionOf?_of_ne hshort, expansionOf?_of_ne hshort]
    ext owner
    rw [h.owner_setEntry_iff]
    constructor
    · rintro (⟨howner, -⟩ | ⟨hentry, -⟩)
      · exact howner
      · exact absurd hentry (silent short)
    · intro howner
      refine .inl ⟨howner, ?_⟩
      rintro rfl
      exact unresolved short (h.owner_resolved short owner howner)

/-- What the base is told about itself is not seen, unless it takes a prefix that nobody has. -/
theorem agree_insert_base_iff (h : t.Coherent) (agree : t.Agree) (short : String) :
    (t.insert t.base short).Agree ↔ t.expansionOf? short ≠ none := by
  have howner := h.owner_setEntry_iff t.base (.resolved short)
  constructor
  · intro hagree hfree
    have hshort : short ≠ "" := by
      rintro rfl
      cases hfree
    rw [expansionOf?_of_ne hshort] at hfree
    -- the base would take the free prefix, but it is always shown with the empty one
    have htakes : (t.insert t.base short).expansionOf? short = some t.base := by
      rw [expansionOf?_of_ne hshort, PrefixTable.insert, howner]
      exact .inr ⟨rfl, rfl, fun other hother => by simp [hfree] at hother⟩
    have hpeek := hagree.owned short t.base htakes
    rw [show (t.insert t.base short).peek? t.base = some "" from peek?_base _] at hpeek
    exact hshort (Option.some.inj hpeek).symm
  · intro htaken
    refine agree.congr (fun other => ?_) fun taken => ?_
    · by_cases hother : t.base = other
      · subst hother
        exact (peek?_base (t.insert t.base short)).trans (peek?_base t).symm
      · exact peek?_setEntry_of_ne hother _
    · by_cases hempty : taken = ""
      · subst hempty
        rfl
      · -- the base owns no prefix that can be seen
        have hforeign : ∀ owner, t.owners.get? taken = some owner → owner ≠ t.base := by
          rintro owner howns rfl
          have hpeek := agree.owned taken t.base ((expansionOf?_of_ne hempty).trans howns)
          rw [peek?_base] at hpeek
          exact hempty (Option.some.inj hpeek).symm
        rw [expansionOf?_of_ne hempty, expansionOf?_of_ne hempty]
        ext owner
        rw [PrefixTable.insert, howner]
        constructor
        · rintro (⟨hold, -⟩ | ⟨hentry, -, honly⟩)
          · exact hold
          · cases hentry
            rw [expansionOf?_of_ne hempty] at htaken
            obtain ⟨first, hfirst⟩ := Option.ne_none_iff_exists'.1 htaken
            exact absurd (honly first hfirst) (hforeign first hfirst)
        · exact fun hold => .inl ⟨hold, hforeign owner hold⟩

/-- Another namespace takes a prefix. What it gives up goes to nobody. -/
theorem agree_insert_iff (h : t.Coherent) (agree : t.Agree) (foreign : expansion ≠ t.base)
    (short : String) :
    (t.insert expansion short).Agree ↔
      ¬ ∃ old other, old ≠ short ∧ t.expansionOf? old = some expansion ∧
        other ≠ expansion ∧ t.peek? other = some old := by
  have howner := h.owner_setEntry_iff expansion (.resolved short)
  have hself : (t.insert expansion short).peek? expansion = some short :=
    peek?_setEntry_self foreign short
  have hothers : ∀ other, other ≠ expansion →
      (t.insert expansion short).peek? other = t.peek? other :=
    fun other hother => peek?_setEntry_of_ne hother.symm _
  constructor
  · rintro hagree ⟨old, other, hold, howns, hother, huses⟩
    have hempty : old ≠ "" := ne_empty_of_expansionOf? howns foreign
    rw [expansionOf?_of_ne hempty] at howns
    obtain ⟨owner, hnew, -⟩ := hagree.used other old ((hothers other hother).trans huses)
    rw [expansionOf?_of_ne hempty, PrefixTable.insert, howner] at hnew
    rcases hnew with ⟨hsame, hne⟩ | ⟨hentry, -⟩
    · rw [howns] at hsame
      exact hne (Option.some.inj hsame).symm
    · cases hentry
      exact hold rfl
  · intro hkept
    have howned : ∀ taken owner, (t.insert expansion short).expansionOf? taken = some owner →
        (t.insert expansion short).peek? owner = some taken := by
      intro taken owner hnew
      by_cases hempty : taken = ""
      · subst hempty
        obtain rfl : t.base = owner := Option.some.inj hnew
        exact peek?_base _
      · rw [expansionOf?_of_ne hempty, PrefixTable.insert, howner] at hnew
        rcases hnew with ⟨hold, hne⟩ | ⟨hentry, rfl, -⟩
        · rw [hothers owner hne]
          exact agree.owned taken owner ((expansionOf?_of_ne hempty).trans hold)
        · cases hentry
          exact hself
    refine ⟨fun other taken huses => ?_, howned⟩
    by_cases hempty : taken = ""
    · subst hempty
      exact ⟨t.base, rfl, peek?_base _⟩
    -- it is enough that somebody owns the prefix
    suffices hsome : ∃ owner, (t.insert expansion short).owners.get? taken = some owner by
      obtain ⟨owner, hnew⟩ := hsome
      have hstands := (expansionOf?_of_ne (t := t.insert expansion short) hempty).trans hnew
      exact ⟨owner, hstands, howned taken owner hstands⟩
    by_cases hfirst : ∃ first, t.owners.get? taken = some first ∧ first ≠ expansion
    · obtain ⟨first, hfirst⟩ := hfirst
      exact ⟨first, (howner taken first).2 (.inl hfirst)⟩
    · -- nobody else owned it before, so it must be what the namespace is told
      have honly : ∀ first, t.owners.get? taken = some first → first = expansion := by
        intro first hold
        by_contra hne
        exact hfirst ⟨first, hold, hne⟩
      suffices htaken : short = taken by
        exact ⟨expansion, (howner taken expansion).2 (.inr ⟨by rw [htaken], rfl, honly⟩)⟩
      by_cases hother : other = expansion
      · rw [hother, hself] at huses
        exact Option.some.inj huses
      · rw [hothers other hother] at huses
        obtain ⟨first, hold, -⟩ := agree.used other taken huses
        obtain rfl : first = expansion :=
          honly first ((expansionOf?_of_ne hempty).symm.trans hold)
        by_contra hne
        exact hkept ⟨taken, other, Ne.symm hne, hold, hother, huses⟩

/-- A call that finds the directions in agreement leaves them so exactly if it does not part
    them. -/
theorem agree_perform_iff (h : t.Coherent) (agree : t.Agree) (call : Call) :
    (t.perform call).1.Agree ↔ ¬ t.Parts call := by
  have hstep := step_perform t call
  generalize t.perform call = outcome at hstep
  obtain ⟨t', note⟩ := outcome
  cases hstep with
  | known expansion => exact iff_of_true agree id
  | @asked expansion foreign unknown =>
    refine iff_of_true ?_ id
    have hsilent : (t.setEntry expansion (.pending (t.generation + 1))).Agree :=
      h.agree_setEntry_of_silent agree (fun short hshort => by simp [unknown] at hshort)
        fun short hentry => by cases hentry
    rw [setEntry_pending unknown] at hsilent
    exact hsilent.congr (fun _ => rfl) fun _ => rfl
  | taken => exact iff_of_true (agree.congr (fun _ => rfl) fun _ => rfl) id
  | @accepted request answer awaited =>
    refine iff_of_true ?_ id
    have hunresolved : t.Unresolved request.expansion := by
      intro short hshort
      rw [awaited] at hshort
      cases hshort
    cases hentry : entryOf answer with
    | resolved short =>
      -- a namespace that was waiting is not the base, and owns nothing
      have hforeign : request.expansion ≠ t.base := by
        intro hbase
        rw [Awaits, hbase] at awaited
        exact h.base_not_pending _ awaited
      refine (h.agree_insert_iff agree hforeign short).2 ?_
      rintro ⟨old, other, -, howns, -⟩
      rw [expansionOf?_of_ne (ne_empty_of_expansionOf? howns hforeign)] at howns
      exact hunresolved old (h.owner_resolved old _ howns)
    | pending generation => exact absurd hentry (entryOf_ne_pending answer generation)
    | failed => exact h.agree_setEntry_of_silent agree hunresolved fun short h => by cases h
  | refused answer unawaited => exact iff_of_true agree id
  | inserted expansion short =>
    by_cases hbase : expansion = t.base
    · subst hbase
      rw [Parts, if_pos rfl]
      exact h.agree_insert_base_iff agree short
    · rw [Parts, if_neg hbase]
      exact h.agree_insert_iff agree hbase short
  | cleared => exact iff_of_true (agree_of_nothing_known (fun _ => rfl) fun _ => rfl) id

end Coherent

/-! ## Every table -/

/-- Whatever is done to a table, and in whatever order: the two directions agree all the time if and
    only if no call parts them. What a prefix stands for has this prefix in any case, the base
    apart. -/
theorem agree_throughout_iff (base : String) (calls : List Call) :
    ((∀ before, before <+: calls → ((PrefixTable.new base).run before).1.Agree) ↔
        ∀ before call, before ++ [call] <+: calls →
          ¬ ((PrefixTable.new base).run before).1.Parts call) ∧
      ∀ short expansion,
        ((PrefixTable.new base).run calls).1.expansionOf? short = some expansion →
          expansion ≠ base → ((PrefixTable.new base).run calls).1.peek? expansion = some short := by
  constructor
  · have hstart : ((PrefixTable.new base).run []).1.Agree :=
      agree_of_nothing_known (fun _ => rfl) fun _ => rfl
    have hnext : ∀ before call, ((PrefixTable.new base).run before).1.Agree →
        (((PrefixTable.new base).run (before ++ [call])).1.Agree ↔
          ¬ ((PrefixTable.new base).run before).1.Parts call) := by
      intro before call hagree
      rw [show ((PrefixTable.new base).run (before ++ [call])).1 =
        (((PrefixTable.new base).run before).1.perform call).1 from
          runLogged_append_singleton perform _ before call]
      exact (Coherent.run base before).agree_perform_iff hagree call
    exact @holds_throughout_iff _ _ Agree Parts
      (fun before => ((PrefixTable.new base).run before).1) hstart hnext calls
  · intro short expansion hstands hforeign
    have hbase : ((PrefixTable.new base).run calls).1.base = base := base_run _ calls
    have hne : expansion ≠ ((PrefixTable.new base).run calls).1.base := hbase.symm ▸ hforeign
    have howner := hstands
    rw [expansionOf?_of_ne (ne_empty_of_expansionOf? hstands hne)] at howner
    exact (peek?_of_ne hne).2 ((Coherent.run base calls).owner_resolved short expansion howner)

/-- Two namespaces have the same prefix, and the one that took it first is told another. -/
def deserted : PrefixTable :=
  ((PrefixTable.new "http://base/").run [.insert "http://one/" "p", .insert "http://two/" "p",
    .insert "http://one/" "q"]).1

/-- The base is told a prefix. -/
def aliased : PrefixTable :=
  ((PrefixTable.new "http://base/").run [.insert "http://base/" "b"]).1

theorem directions_parted :
    deserted.peek? "http://two/" = some "p" ∧ deserted.expansionOf? "p" = none ∧
      ¬ deserted.Agree ∧
      aliased.expansionOf? "b" = some "http://base/" ∧ aliased.peek? "http://base/" = some "" ∧
      ¬ aliased.Agree := by
  refine ⟨rfl, rfl, fun hagree => ?_, rfl, rfl, fun hagree => ?_⟩
  · obtain ⟨owner, howner, -⟩ := hagree.used "http://two/" "p" rfl
    cases howner
  · have hpeek : some "" = some "b" := hagree.owned "b" "http://base/" rfl
    simp at hpeek

end QueryCanvas.PrefixTable
