/-
  QueryCanvas.Proofs.Session.Batches

  Answers of the prefix service that come in any order and in any number of
  batches.

  Who owns a prefix does depend on the order: of two namespaces with the same
  prefix the one that is answered first. Everything else that is known is in the
  entries, and an answer writes to the entry of its own request only. So answers
  to different requests can be swapped (`noteAnswer_comm`), and hence be put in
  any order (`recordAnswers_perm`).

  Finishing a batch refreshes facts and suggestions, but refreshing them later
  makes up for this, so that batches are as good as one long batch
  (`finishBatches_eq`).
-/

import QueryCanvas.Proofs.Prefix.Requests
import QueryCanvas.Proofs.Session.Vocabulary

namespace QueryCanvas

/-! ## One answer -/

namespace PrefixTable

instance (t : PrefixTable) : DecidablePred t.Awaits := fun _ =>
  inferInstanceAs (Decidable (_ = _))

/-- The table with other owners. -/
def withOwners (t : PrefixTable) (owners : Dict String String) : PrefixTable :=
  { t with owners := owners }

/-- Notes an answer in the entries and leaves the owners alone. The number counts the answers that
    were still wanted. -/
def noteAnswer (noted : PrefixTable × Nat)
    (entry : PrefixRequest × Except ServiceError String) : PrefixTable × Nat :=
  if noted.1.Awaits entry.1 then
    ({ noted.1 with entries := noted.1.entries.insert entry.1.expansion (entryOf entry.2) },
      noted.2 + 1)
  else noted

variable {noted : PrefixTable × Nat} {entry other : PrefixRequest × Except ServiceError String}

theorem noteAnswer_of_awaited (h : noted.1.Awaits entry.1) :
    noteAnswer noted entry =
      ({ noted.1 with entries := noted.1.entries.insert entry.1.expansion (entryOf entry.2) },
        noted.2 + 1) := if_pos h

theorem noteAnswer_of_unawaited (h : ¬ noted.1.Awaits entry.1) : noteAnswer noted entry = noted :=
  if_neg h

/-- Whether a request is awaited does not depend on answers to other requests. -/
theorem awaits_noteAnswer {request : PrefixRequest} (distinct : entry.1 ≠ request) :
    (noteAnswer noted entry).1.Awaits request ↔ noted.1.Awaits request := by
  by_cases hawaits : noted.1.Awaits entry.1
  · rw [noteAnswer_of_awaited hawaits]
    by_cases hsame : entry.1.expansion = request.expansion
    · -- a namespace does not wait for two requests, and now it waits for none
      refine iff_of_false ?_ fun hrequest => distinct (hrequest.eq hawaits hsame)
      rw [Awaits, Dict.get?_insert, if_pos hsame]
      exact fun hentry => entryOf_ne_pending _ _ (Option.some.inj hentry)
    · rw [Awaits, Awaits, Dict.get?_insert, if_neg hsame]
  · rw [noteAnswer_of_unawaited hawaits]

/-- Answers to different requests can be swapped. -/
theorem noteAnswer_comm (distinct : entry.1 ≠ other.1) :
    noteAnswer (noteAnswer noted entry) other = noteAnswer (noteAnswer noted other) entry := by
  have hother : (noteAnswer noted entry).1.Awaits other.1 ↔ noted.1.Awaits other.1 :=
    awaits_noteAnswer distinct
  have hentry : (noteAnswer noted other).1.Awaits entry.1 ↔ noted.1.Awaits entry.1 :=
    awaits_noteAnswer distinct.symm
  by_cases he : noted.1.Awaits entry.1
  · by_cases ho : noted.1.Awaits other.1
    -- two namespaces are waiting: both have an entry already, and the entries keep their places
    · have hne : entry.1.expansion ≠ other.1.expansion := fun hsame => distinct (ho.eq he hsame)
      have hpresent : (noted.1.entries.get? entry.1.expansion).isSome := by
        rw [he]
        rfl
      rw [noteAnswer_of_awaited (hother.2 ho), noteAnswer_of_awaited (hentry.2 he),
        noteAnswer_of_awaited he, noteAnswer_of_awaited ho]
      simp only [Dict.insert_comm hne _ _ hpresent]
    · rw [noteAnswer_of_unawaited (mt hother.1 ho), noteAnswer_of_unawaited ho]
  · rw [noteAnswer_of_unawaited (mt hentry.1 he), noteAnswer_of_unawaited he]

/-- If no request is answered twice, the answers to awaited requests are counted. -/
theorem count_noteAnswer {answers : PrefixAnswers} (once : (answers.map Prod.fst).Nodup)
    (noted : PrefixTable × Nat) :
    (answers.foldl noteAnswer noted).2 =
      noted.2 + answers.countP fun entry => noted.1.Awaits entry.1 := by
  induction answers generalizing noted with
  | nil => rfl
  | cons entry rest ih =>
    rw [List.map_cons, List.nodup_cons] at once
    -- this answer does not change which of the others are awaited
    have hrest : (rest.countP fun other => (noteAnswer noted entry).1.Awaits other.1) =
        rest.countP fun other => noted.1.Awaits other.1 := by
      refine List.countP_congr fun other hother => ?_
      have hdistinct : entry.1 ≠ other.1 := fun h => once.1 (h ▸ List.mem_map_of_mem hother)
      simp only [decide_eq_true_eq, awaits_noteAnswer hdistinct]
    rw [List.foldl_cons, ih once.2, hrest, List.countP_cons]
    by_cases h : noted.1.Awaits entry.1
    · rw [noteAnswer_of_awaited h, if_pos (decide_eq_true h)]
      omega
    · rw [noteAnswer_of_unawaited h, if_neg (by simpa using h)]
      rfl

end PrefixTable

/-! ## Lists of answers -/

namespace Session

variable {t : PrefixTable} {answers answers' : PrefixAnswers}

/-- Records one answer, and counts it if it was still wanted. -/
def recordAnswer (recorded : PrefixTable × Nat)
    (entry : PrefixRequest × Except ServiceError String) : PrefixTable × Nat :=
  let (t, wanted) := recorded.1.complete entry.1 entry.2
  (t, if wanted then recorded.2 + 1 else recorded.2)

theorem recordAnswers_eq_foldl (t : PrefixTable) (answers : PrefixAnswers) :
    recordAnswers t answers = answers.foldl recordAnswer (t, 0) := rfl

/-- What was counted before is carried along. -/
theorem foldl_recordAnswer (t : PrefixTable) (applied : Nat) (answers : PrefixAnswers) :
    answers.foldl recordAnswer (t, applied) =
      ((recordAnswers t answers).1, applied + (recordAnswers t answers).2) := by
  have hstep : ∀ recorded entry, recordAnswer (Prod.map id (applied + ·) recorded) entry =
      Prod.map id (applied + ·) (recordAnswer recorded entry) := by
    intro recorded entry
    simp only [recordAnswer, Prod.map_fst, Prod.map_snd, id_eq]
    split <;> rfl
  have hfold : answers.foldl recordAnswer (Prod.map id (applied + ·) (t, 0)) =
      Prod.map id (applied + ·) (answers.foldl recordAnswer (t, 0)) := List.foldl_hom _ hstep
  exact hfold

/-- Recording starts anew with every list of answers. -/
theorem recordAnswers_append (t : PrefixTable) (answers more : PrefixAnswers) :
    recordAnswers t (answers ++ more) =
      ((recordAnswers (recordAnswers t answers).1 more).1,
        (recordAnswers t answers).2 + (recordAnswers (recordAnswers t answers).1 more).2) := by
  rw [recordAnswers_eq_foldl, List.foldl_append, ← recordAnswers_eq_foldl]
  exact foldl_recordAnswer _ _ more

/-- An answer is recorded as it is noted, but for the owners. -/
theorem noteAnswer_withOwners (t : PrefixTable) (applied : Nat) (owners : Dict String String)
    (entry : PrefixRequest × Except ServiceError String) :
    PrefixTable.noteAnswer (t.withOwners owners, applied) entry =
      ((recordAnswer (t, applied) entry).1.withOwners owners,
        (recordAnswer (t, applied) entry).2) := by
  by_cases h : t.Awaits entry.1
  · have hother : (t.withOwners owners).Awaits entry.1 := h
    rw [PrefixTable.noteAnswer_of_awaited hother, recordAnswer, PrefixTable.complete_of_awaited h]
    rfl
  · have hother : ¬ (t.withOwners owners).Awaits entry.1 := h
    rw [PrefixTable.noteAnswer_of_unawaited hother, recordAnswer,
      PrefixTable.complete_of_unawaited h]
    rfl

theorem foldl_noteAnswer (t : PrefixTable) (answers : PrefixAnswers) :
    answers.foldl PrefixTable.noteAnswer (t, 0) =
      ((recordAnswers t answers).1.withOwners t.owners, (recordAnswers t answers).2) := by
  have hfold : answers.foldl PrefixTable.noteAnswer (Prod.map (·.withOwners t.owners) id (t, 0)) =
      Prod.map (·.withOwners t.owners) id (answers.foldl recordAnswer (t, 0)) :=
    List.foldl_hom _ fun recorded entry => noteAnswer_withOwners recorded.1 recorded.2 _ entry
  exact hfold

/-- The order in which different requests are answered matters to the owners only. -/
theorem recordAnswers_perm (once : (answers.map Prod.fst).Nodup)
    (reordered : answers.Perm answers') (t : PrefixTable) :
    ∃ owners, recordAnswers t answers' =
      ((recordAnswers t answers).1.withOwners owners, (recordAnswers t answers).2) := by
  have hnoted : answers.foldl PrefixTable.noteAnswer (t, 0) =
      answers'.foldl PrefixTable.noteAnswer (t, 0) := by
    refine reordered.foldl_eq' ?_ (t, 0)
    intro entry hentry other hother noted
    by_cases hsame : entry.1 = other.1
    · rw [List.inj_on_of_nodup_map once hentry hother hsame]
    · exact PrefixTable.noteAnswer_comm hsame
  rw [foldl_noteAnswer, foldl_noteAnswer, Prod.mk.injEq] at hnoted
  obtain ⟨htable, hcount⟩ := hnoted
  refine ⟨(recordAnswers t answers').1.owners, Prod.ext ?_ hcount.symm⟩
  exact congrArg (·.withOwners (recordAnswers t answers').1.owners) htable.symm

theorem count_recordAnswers (once : (answers.map Prod.fst).Nodup) (t : PrefixTable) :
    (recordAnswers t answers).2 = answers.countP fun entry => t.Awaits entry.1 := by
  have hcount := PrefixTable.count_noteAnswer once (t, 0)
  rwa [foldl_noteAnswer, Nat.zero_add] at hcount

end Session

/-! ## Refreshing -/

variable {p p' : PrefixTable}

theorem Fact.refresh_eq {f : Fact} (h : ∀ t ∈ f.terms, t.IsCurrent p) : f.refresh p = f := by
  rw [Fact.terms, List.forall_mem_cons, List.forall_mem_cons, List.forall_mem_singleton] at h
  obtain ⟨hproperty, hdomain, hrange⟩ := h
  rw [Fact.refresh, hproperty.refresh_eq, hdomain.refresh_eq, hrange.refresh_eq]

theorem Ontology.refresh_eq {o : Ontology} (h : ∀ t ∈ o.terms, t.IsCurrent p) :
    o.refresh p = o := by
  have hfacts : o.facts.map (·.refresh p) = o.facts := by
    refine (List.map_congr_left fun f hf => ?_).trans (List.map_id _)
    exact Fact.refresh_eq fun t ht => h t (mem_terms_of_fact hf ht)
  rw [Ontology.refresh, hfacts]

theorem Suggestion.refresh_eq {x : Suggestion} (h : ∀ t ∈ x.terms, t.IsCurrent p) :
    x.refresh p = x := by
  cases x with
  | edge suggestion =>
    rw [Suggestion.terms, List.forall_mem_cons, List.forall_mem_cons,
      List.forall_mem_singleton] at h
    obtain ⟨hproperty, hdomain, hrange⟩ := h
    rw [Suggestion.refresh, hproperty.refresh_eq, hdomain.refresh_eq, hrange.refresh_eq]
  | node suggestion =>
    rw [Suggestion.terms, List.forall_mem_singleton] at h
    rw [Suggestion.refresh, h.refresh_eq]

section Later

variable (learned : ∀ expansion short, p.peek? expansion = some short →
  p'.peek? expansion = some short)

include learned

/-- What was taken up before makes no difference to what is taken up later. -/
theorem Ontology.refresh_refresh (o : Ontology) : (o.refresh p).refresh p' = o.refresh p' := by
  simp only [refresh, List.map_map, Function.comp_def, Fact.refresh, Term.refresh_refresh learned]

theorem Suggestion.refresh_refresh (x : Suggestion) :
    (x.refresh p).refresh p' = x.refresh p' := by
  cases x with
  | edge suggestion => simp only [refresh, Term.refresh_refresh learned]
  | node suggestion => simp only [refresh, Term.refresh_refresh learned]

end Later

/-! ## Batches -/

namespace Session

variable {s : Session}

/-- Finishes batches of answers one after the other. The number says how many answers were still
    wanted. -/
def finishBatches (s : Session) (batches : List PrefixAnswers) : Session × Nat :=
  batches.foldl (fun (s, applied) answers =>
    let (s, more) := s.finishPrefixes answers
    (s, applied + more)) (s, 0)

/-- What is shown already need not be refreshed. -/
theorem ShowsKnown.finishPrefixes_nil (h : s.ShowsKnown) : s.finishPrefixes [] = (s, 0) := by
  have hontology : s.ontology.refresh s.prefixes = s.ontology :=
    Ontology.refresh_eq fun t ht => h.terms t (List.mem_append_left _ ht)
  have hsuggestions : s.suggestions.map (·.refresh s.prefixes) = s.suggestions := by
    refine (List.map_congr_left fun x hx => ?_).trans (List.map_id _)
    refine Suggestion.refresh_eq fun t ht => h.terms t (List.mem_append_right _ ?_)
    exact List.mem_flatMap.2 ⟨x, hx, ht⟩
  show ({ s with
    ontology := s.ontology.refresh s.prefixes
    suggestions := s.suggestions.map (·.refresh s.prefixes) }, 0) = (s, 0)
  rw [hontology, hsuggestions]

/-- Two batches are as good as one, since answers take no prefix back. -/
theorem finishPrefixes_append (s : Session) (answers more : PrefixAnswers) :
    s.finishPrefixes (answers ++ more) =
      (((s.finishPrefixes answers).1.finishPrefixes more).1,
        (s.finishPrefixes answers).2 + ((s.finishPrefixes answers).1.finishPrefixes more).2) := by
  have hlearned : ∀ expansion short,
      (recordAnswers s.prefixes answers).1.peek? expansion = some short →
        (recordAnswers (recordAnswers s.prefixes answers).1 more).1.peek? expansion =
          some short := fun _ _ => peek?_recordAnswers _ more
  simp only [finishPrefixes, recordAnswers_append, Ontology.refresh_refresh hlearned,
    List.map_map, Function.comp_def, Suggestion.refresh_refresh hlearned]

/-- Batches are as good as one long batch. -/
theorem ShowsKnown.finishBatches_eq (h : s.ShowsKnown) (batches : List PrefixAnswers) :
    s.finishBatches batches = s.finishPrefixes batches.flatten := by
  -- the last batch is finished where the batches before it have led
  induction batches using List.reverseRecOn with
  | nil => exact h.finishPrefixes_nil.symm
  | append_singleton batches answers ih =>
    rw [List.flatten_append, List.flatten_singleton, finishPrefixes_append, ← ih, finishBatches,
      List.foldl_append]
    rfl

/-- The order in which different requests are answered matters to the owners of prefixes only. -/
theorem finishPrefixes_perm {answers answers' : PrefixAnswers}
    (once : (answers.map Prod.fst).Nodup) (reordered : answers.Perm answers') (s : Session) :
    ∃ owners, s.finishPrefixes answers' =
      ({ (s.finishPrefixes answers).1 with
          prefixes := (s.finishPrefixes answers).1.prefixes.withOwners owners },
        (s.finishPrefixes answers).2) := by
  obtain ⟨owners, hrecorded⟩ := recordAnswers_perm once reordered s.prefixes
  refine ⟨owners, ?_⟩
  simp only [finishPrefixes, hrecorded]
  -- refreshing looks at entries only
  rfl

section Reached

variable {allowed : Operation Float → Prop} {answered : String → Prop} {base : String}
  {sizes : ShapeSizes Float}

/-- Whatever has happened before: if no request is answered twice, the answers and failures may come
    in any order and in any number of batches. The same prefixes are known in the end, the same
    requests are left open and the same number of answers is accepted, namely of those that were
    awaited at the beginning; and the terms of all facts and suggestions are the same. -/
theorem Reachable.answers_in_any_order (reached : Reachable allowed answered base sizes s)
    {answers : PrefixAnswers} (once : (answers.map Prod.fst).Nodup)
    {batches batches' : List PrefixAnswers} (divided : batches.flatten.Perm answers)
    (divided' : batches'.flatten.Perm answers) :
    let one := s.finishBatches batches
    let other := s.finishBatches batches'
    (∀ expansion, other.1.prefixes.peek? expansion = one.1.prefixes.peek? expansion) ∧
      other.1.prefixes.hasPending = one.1.prefixes.hasPending ∧
      one.2 = (answers.countP fun entry => s.prefixes.Awaits entry.1) ∧ other.2 = one.2 ∧
      other.1.ontology = one.1.ontology ∧ other.1.suggestions = one.1.suggestions := by
  intro one other
  have hone : one = s.finishPrefixes batches.flatten := reached.showsKnown.finishBatches_eq batches
  have hother : other = s.finishPrefixes batches'.flatten :=
    reached.showsKnown.finishBatches_eq batches'
  have honce : (batches.flatten.map Prod.fst).Nodup :=
    (divided.map Prod.fst).nodup_iff.2 once
  have hcount : one.2 = answers.countP fun entry => s.prefixes.Awaits entry.1 := by
    rw [hone, ← divided.countP_eq]
    exact count_recordAnswers honce s.prefixes
  obtain ⟨owners, hperm⟩ := finishPrefixes_perm honce (divided.trans divided'.symm) s
  rw [← hone, ← hother] at hperm
  rw [hperm]
  -- nothing that is compared looks at the owners
  exact ⟨fun _ => rfl, rfl, hcount, rfl, rfl, rfl⟩

end Reached

/-- A session that suggests a property, and is asking for the prefixes of three namespaces. -/
def asking : Session :=
  let drawn := ((Session.new "http://base/" defaultSizes).edit fun c =>
    (c.run [.createNode ⟨0, 0⟩ .uri ":Person", .select (.node ⟨1⟩)], ())).1
  let begun := drawn.beginLoad
  let loaded := (begun.1.finishLoad begun.2
    (.ok ⟨[], [Fact.solution "http://one/visits" "http://two/Person" "http://three/Place"]⟩)).1
  loaded.beginPrefixes.1

theorem reachable_asking :
    Reachable (fun _ => True) (fun _ => True) "http://base/" defaultSizes asking := by
  refine .beginPrefixes (.finishLoad (.beginLoad (.edit .new _ ?_ rfl)) _ _)
  exact fun _ _ => trivial

/-- Two namespaces get the same prefix, and the third gets none. -/
def answersToAsking : PrefixAnswers :=
  [(⟨"http://one/", 1⟩, .ok "p:a"), (⟨"http://two/", 2⟩, .ok "p:a"),
    (⟨"http://three/", 3⟩, .error (.rejected "http://three/a"))]

/-- The answers in one batch. -/
def together : Session × Nat := asking.finishBatches [answersToAsking]

/-- The answers one by one, the last first, and an empty batch. -/
def apart : Session × Nat := asking.finishBatches ([] :: answersToAsking.reverse.map fun a => [a])

theorem answers_in_any_order_asking :
    together.1.prefixes.expansionOf? "p" = some "http://one/" ∧
      apart.1.prefixes.expansionOf? "p" = some "http://two/" ∧
      apart.1.prefixes.peek? "http://one/" = some "p" ∧
      apart.1.prefixes.hasPending = false ∧ together.2 = 3 ∧ apart.2 = 3 ∧
      apart.1.ontology = together.1.ontology ∧
      apart.1.suggestions.map Suggestion.label = ["p:visits"] := by
  have honce : (answersToAsking.map Prod.fst).Nodup := by decide
  have htogether : [answersToAsking].flatten.Perm answersToAsking := by
    rw [List.flatten_singleton]
  have hapart : ([] :: answersToAsking.reverse.map fun a => [a]).flatten.Perm answersToAsking :=
    List.reverse_perm answersToAsking
  obtain ⟨hpeek, hpending, hcount, hsame, hontology, hsuggestions⟩ :=
    Reachable.answers_in_any_order reachable_asking honce htogether hapart
  have hthree : together.2 = 3 := hcount.trans rfl
  refine ⟨rfl, rfl, (hpeek "http://one/").trans rfl, hpending.trans rfl, hthree,
    hsame.trans hthree, hontology, ?_⟩
  exact (congrArg (List.map Suggestion.label) hsuggestions).trans rfl

end Session

end QueryCanvas
