/-
  QueryCanvas.Proofs.Ontology.Accounting

  Nothing is lost and nothing is made up when an ontology is loaded. A solution
  becomes one fact, or it is reported with its position and with the variable
  that it lacks. Prefixes are asked for in a row, one question for each
  namespace of a fact that nothing was known about.

  The table of prefixes goes through one look-up for each IRI of a fact and
  through no other (`Loading.Accounts`). What look-ups in a row amount to is an
  invariant of its own (`PrefixTable.HasAsked`), by induction from the end.
-/

import Mathlib.Data.List.Induction
import QueryCanvas.Proofs.Ontology.Tickets
import QueryCanvas.Proofs.Prefix.Table

namespace QueryCanvas

/-! ## Solutions -/

namespace Binding

/-- The text of a variable, unless it is empty. -/
def filled? (b : Binding) (name : String) : Option String :=
  ((b.get? name).map BoundTerm.value).filter (· ≠ "")

/-- The texts of the three variables, if all of them have one. -/
def iris? (b : Binding) : Option (String × String × String) := do
  let property ← b.filled? "s"
  let domain ← b.filled? "domain"
  let range ← b.filled? "range"
  return (property, domain, range)

/-- The first of the three variables that has no text. -/
def missing? (b : Binding) : Option String :=
  ["s", "domain", "range"].find? fun name => b.filled? name = none

theorem iriAt?_eq (b : Binding) (role : Role) :
    Fact.iriAt? b role = b.filled? role.variableName := by
  rw [Fact.iriAt?, Binding.text, filled?]
  cases b.get? role.variableName with
  | none => rfl
  | some bound => by_cases hempty : bound.value = "" <;> simp [hempty, Option.filter]

/-- A solution is read as its three texts, or refused for the first that is missing. -/
theorem irisOf_cases (b : Binding) :
    (∃ iris, Fact.irisOf b = .ok iris ∧ b.iris? = some iris) ∨
      ∃ role, Fact.irisOf b = .error role ∧ b.iris? = none ∧
        b.missing? = some role.variableName := by
  simp only [Fact.irisOf, iriAt?_eq, Role.variableName]
  cases hs : b.filled? "s" with
  | none => exact .inr ⟨.property, rfl, by simp [iris?, hs], by simp [missing?, hs]⟩
  | some property =>
    cases hdomain : b.filled? "domain" with
    | none =>
      exact .inr ⟨.domain, rfl, by simp [iris?, hdomain], by simp [missing?, hs, hdomain]⟩
    | some domain =>
      cases hrange : b.filled? "range" with
      | none =>
        exact .inr ⟨.range, rfl, by simp [iris?, hrange], by
          simp [missing?, hs, hdomain, hrange]⟩
      | some range =>
        exact .inl ⟨(property, domain, range), rfl, by simp [iris?, hs, hdomain, hrange]⟩

theorem irisOf?_eq (b : Binding) : Fact.irisOf? b = b.iris? := by
  rcases b.irisOf_cases with ⟨iris, hread, hiris⟩ | ⟨role, hread, hiris, -⟩
  · rw [Fact.irisOf?, hread, hiris]
    rfl
  · rw [Fact.irisOf?, hread, hiris]
    rfl

end Binding

/-! ## Look-ups in a row -/

namespace PrefixTable

/-- Nothing is known about the namespace, so that its prefix has to be asked for. -/
def IsUnknown (t : PrefixTable) (expansion : String) : Prop :=
  expansion ≠ "" ∧ expansion ≠ t.base ∧ t.entries.get? expansion = none

instance (t : PrefixTable) (expansion : String) : Decidable (t.IsUnknown expansion) :=
  inferInstanceAs (Decidable (_ ∧ _ ∧ _))

/-- The namespaces that nothing is known about, each once and in the order in which they come
    first. -/
def unknown (t : PrefixTable) (expansions : List String) : List String :=
  (expansions.filter t.IsUnknown).eraseDups

/-- Looks up the prefixes of IRIs one after the other. -/
def lookUp (t : PrefixTable) (iris : List String) : PrefixTable :=
  iris.foldl (fun t iri => (Term.resolve iri t).1) t

theorem lookUp_append (t : PrefixTable) (iris more : List String) :
    t.lookUp (iris ++ more) = (t.lookUp iris).lookUp more :=
  List.foldl_append

theorem unknown_concat_of_new {t : PrefixTable} {expansions : List String} {expansion : String}
    (h : t.IsUnknown expansion) (new : expansion ∉ t.unknown expansions) :
    t.unknown (expansions ++ [expansion]) = t.unknown expansions ++ [expansion] := by
  have hmem : expansion ∉ expansions.filter t.IsUnknown := fun hmem =>
    new (List.mem_eraseDups.2 hmem)
  rw [unknown, List.filter_append, List.filter_cons_of_pos (by simpa using h), List.filter_nil,
    eraseDups_concat, if_neg hmem, unknown]

theorem unknown_concat_of_old {t : PrefixTable} {expansions : List String} {expansion : String}
    (h : t.IsUnknown expansion → expansion ∈ t.unknown expansions) :
    t.unknown (expansions ++ [expansion]) = t.unknown expansions := by
  rw [unknown, List.filter_append]
  by_cases hunknown : t.IsUnknown expansion
  · have hmem : expansion ∈ expansions.filter t.IsUnknown := List.mem_eraseDups.1 (h hunknown)
    rw [List.filter_cons_of_pos (by simpa using hunknown), List.filter_nil, eraseDups_concat,
      if_pos hmem, unknown]
  · rw [List.filter_cons_of_neg (by simpa using hunknown), List.filter_nil, List.append_nil,
      unknown]

end PrefixTable

theorem Term.resolve_of_unknown {iri : String} {t : PrefixTable}
    (h : t.IsUnknown (Iri.split iri).1) :
    (Term.resolve iri t).1 =
      { t with
        entries := t.entries.insert (Iri.split iri).1 (.pending (t.generation + 1))
        queue := t.queue ++ [⟨(Iri.split iri).1, t.generation + 1⟩]
        generation := t.generation + 1 } := by
  obtain ⟨hempty, hbase, hunasked⟩ := h
  rw [Term.resolve, if_neg hempty, PrefixTable.resolve, if_neg hbase, hunasked]
  simp only [PrefixTable.setEntry_pending hunasked]

theorem Term.resolve_of_known {iri : String} {t : PrefixTable}
    (h : ¬ t.IsUnknown (Iri.split iri).1) : (Term.resolve iri t).1 = t := by
  rw [Term.resolve]
  by_cases hempty : (Iri.split iri).1 = ""
  · rw [if_pos hempty]
  · rw [if_neg hempty]
    rcases t.resolve_cases (Iri.split iri).1 with hsame | ⟨hbase, hunasked, -⟩
    · exact hsame
    · exact absurd ⟨hempty, hbase, hunasked⟩ h

namespace PrefixTable

variable {t t' : PrefixTable} {expansions : List String}

/-- The table after the prefixes of some namespaces were looked up: it has asked for those that
    nothing was known about, under numbers that follow one another. -/
structure HasAsked (t t' : PrefixTable) (expansions : List String) : Prop where
  base_eq : t'.base = t.base
  generation_eq : t'.generation = t.generation + (t.unknown expansions).length
  queue_eq : t'.queue =
    t.queue ++ ((t.unknown expansions).zipIdx (t.generation + 1)).map fun entry =>
      ⟨entry.1, entry.2⟩
  unasked_iff : ∀ expansion, t'.entries.get? expansion = none ↔
    t.entries.get? expansion = none ∧ expansion ∉ t.unknown expansions

namespace HasAsked

theorem refl (t : PrefixTable) : t.HasAsked t [] where
  base_eq := rfl
  generation_eq := rfl
  queue_eq := (List.append_nil _).symm
  unasked_iff expansion := by simp [unknown]

/-- What is unknown now was unknown before, and has not been asked for since. -/
theorem isUnknown_iff (h : t.HasAsked t' expansions) (expansion : String) :
    t'.IsUnknown expansion ↔ t.IsUnknown expansion ∧ expansion ∉ t.unknown expansions := by
  rw [IsUnknown, IsUnknown, h.base_eq, h.unasked_iff]
  simp only [and_assoc]

/-- One more look-up asks if nothing is known yet, and changes nothing otherwise. -/
theorem step (h : t.HasAsked t' expansions) (iri : String) :
    t.HasAsked (Term.resolve iri t').1 (expansions ++ [(Iri.split iri).1]) := by
  have hiff := h.isUnknown_iff (Iri.split iri).1
  by_cases hnew : t'.IsUnknown (Iri.split iri).1
  · have hconcat := unknown_concat_of_new (hiff.1 hnew).1 (hiff.1 hnew).2
    rw [Term.resolve_of_unknown hnew]
    refine ⟨h.base_eq, ?_, ?_, fun other => ?_⟩
    · rw [hconcat, List.length_append, ← Nat.add_assoc, ← h.generation_eq]
      rfl
    · rw [hconcat, List.zipIdx_append, List.map_append, ← List.append_assoc, ← h.queue_eq,
        Nat.add_right_comm, ← h.generation_eq]
      rfl
    · rw [hconcat, Dict.get?_insert, List.mem_append, List.mem_singleton, not_or]
      by_cases hother : (Iri.split iri).1 = other
      · simp [hother]
      · rw [if_neg hother, h.unasked_iff]
        simp [Ne.symm hother]
  · have hold : t.IsUnknown (Iri.split iri).1 → (Iri.split iri).1 ∈ t.unknown expansions :=
      fun hunknown => by_contra fun hmem => hnew (hiff.2 ⟨hunknown, hmem⟩)
    have hconcat := unknown_concat_of_old hold
    rw [Term.resolve_of_known hnew]
    exact ⟨h.base_eq, by rw [hconcat, h.generation_eq], by rw [hconcat, h.queue_eq],
      by simpa only [hconcat] using h.unasked_iff⟩

/-- Look-ups in a row ask for the namespaces of the IRIs. -/
theorem lookUp (t : PrefixTable) (iris : List String) :
    t.HasAsked (t.lookUp iris) (iris.map fun iri => (Iri.split iri).1) := by
  induction iris using List.reverseRecOn with
  | nil => exact .refl t
  | append_singleton iris iri ih =>
    rw [lookUp_append, List.map_append]
    exact ih.step iri

end HasAsked

end PrefixTable

/-! ## Loading -/

namespace Ontology

/-- The IRIs of solutions that have all parts, solution by solution. -/
def irisIn (bindings : List Binding) : List String :=
  (bindings.filterMap Binding.iris?).flatMap fun iris => [iris.1, iris.2.1, iris.2.2]

theorem irisIn_concat (bindings : List Binding) (b : Binding) :
    irisIn (bindings ++ [b]) =
      irisIn bindings ++ b.iris?.toList.flatMap fun iris => [iris.1, iris.2.1, iris.2.2] := by
  rw [irisIn, List.filterMap_append, List.flatMap_append, List.filterMap_cons, irisIn]
  cases b.iris? <;> rfl

/-- What has been read so far accounts for the solutions read so far. -/
structure Loading.Accounts (l : Loading) (p : PrefixTable) (bindings : List Binding) : Prop where
  total : l.ontology.facts.length + l.skipped.length = bindings.length
  skipped_eq : l.skipped.map (fun m => (m.index, some m.missing.variableName)) =
    (bindings.zipIdx.filter fun entry => entry.1.iris? = none).map fun entry =>
      (entry.2, entry.1.missing?)
  prefixes_eq : l.prefixes = p.lookUp (irisIn bindings)

namespace Loading.Accounts

variable {l : Loading} {p : PrefixTable} {bindings : List Binding}

/-- The next solution is read and looked up, or noted and left alone. -/
theorem step (h : l.Accounts p bindings) (b : Binding) :
    (l.step (b, bindings.length)).Accounts p (bindings ++ [b]) := by
  have htotal := h.total
  rcases b.irisOf_cases with ⟨iris, hread, hiris⟩ | ⟨role, hread, hiris, hmissing⟩
  · have hstep : l.step (b, bindings.length) =
        ⟨l.ontology.addFact (Fact.resolve iris l.prefixes).2, (Fact.resolve iris l.prefixes).1,
          l.skipped⟩ := by
      rw [Loading.step, hread]
    rw [hstep]
    refine ⟨?_, ?_, ?_⟩
    · simp only [addFact, List.length_append, List.length_singleton]
      omega
    · simpa [List.zipIdx_append, hiris] using h.skipped_eq
    · rw [irisIn_concat, hiris, PrefixTable.lookUp_append, ← h.prefixes_eq]
      rfl
  · have hstep : l.step (b, bindings.length) =
        ⟨l.ontology, l.prefixes, l.skipped ++ [⟨bindings.length, role⟩]⟩ := by
      rw [Loading.step, hread]
    rw [hstep]
    refine ⟨?_, ?_, ?_⟩
    · simp only [List.length_append, List.length_singleton]
      omega
    · simpa [List.zipIdx_append, hiris, hmissing] using h.skipped_eq
    · rw [irisIn_concat, hiris, Option.toList_none, List.flatMap_nil, List.append_nil]
      exact h.prefixes_eq

theorem run (o : Ontology) (p : PrefixTable) (bindings : List Binding) :
    (bindings.zipIdx.foldl Loading.step ⟨o.reset, p, []⟩).Accounts p bindings := by
  induction bindings using List.reverseRecOn with
  | nil => exact ⟨rfl, rfl, rfl⟩
  | append_singleton bindings b ih =>
    rw [List.zipIdx_append, List.foldl_append, Nat.zero_add]
    exact ih.step b

end Loading.Accounts

/-- A load looks up the IRIs of the solutions that have all parts. -/
theorem prefixes_index (o : Ontology) (bindings : List Binding) (p : PrefixTable) :
    (o.index bindings p).2.1 = p.lookUp (irisIn bindings) :=
  (Loading.Accounts.run o p bindings).prefixes_eq

/-- What a load answers, in either form, is what reading the solutions comes to. -/
theorem eq_index_of_applied {o o' : Ontology} {bindings : List Binding} {p p' : PrefixTable}
    {report : LoadReport}
    (applied : (∃ ticket, o.applyLoad ticket bindings p = (o', p', some report)) ∨
      o.load bindings p = (o', p', report)) :
    ∃ start : Ontology, start.index bindings p = (o', p', report) := by
  rcases applied with ⟨ticket, happlied⟩ | hloaded
  · by_cases hcurrent : ticket.generation = o.generation
    · rw [applyLoad_of_current hcurrent, Prod.mk.injEq, Prod.mk.injEq, Option.some_inj] at happlied
      obtain ⟨rfl, rfl, rfl⟩ := happlied
      exact ⟨o, rfl⟩
    · rw [applyLoad_of_stale hcurrent, Prod.mk.injEq, Prod.mk.injEq] at happlied
      cases happlied.2.2
  · exact ⟨o.beginLoad.1, hloaded⟩

/-- Every solution of a load that counts is accounted for, whatever was known before. It is read as
    one fact with its three IRIs, in its place among the others, or it is reported with its position
    and with the first variable that has no text, and then leaves no trace in the table of prefixes.
    The requests that are added are for the namespaces of the facts that are not empty and not the
    base and had no entry, each once and in the order in which they come first. -/
theorem loads_account_for_solutions {o o' : Ontology} {bindings : List Binding}
    {p p' : PrefixTable} {report : LoadReport}
    (applied : (∃ ticket, o.applyLoad ticket bindings p = (o', p', some report)) ∨
      o.load bindings p = (o', p', report)) :
    let indexed := bindings.filterMap Binding.iris?
    let expansions := (indexed.flatMap fun iris => [iris.1, iris.2.1, iris.2.2]).map fun iri =>
      (Iri.split iri).1
    let asked := (expansions.filter fun expansion =>
      expansion ≠ "" ∧ expansion ≠ p.base ∧ p.entries.get? expansion = none).eraseDups
    report.loaded + report.skipped.length = bindings.length ∧
      report.loaded = o'.facts.length ∧
      o'.facts.map Fact.iris = indexed ∧
      report.skipped.map (fun m => (m.index, some m.missing.variableName)) =
        (bindings.zipIdx.filter fun entry => entry.1.iris? = none).map (fun entry =>
          (entry.2, entry.1.missing?)) ∧
      p' = (Ontology.new.load (bindings.filter fun b => b.iris? ≠ none) p).2.1 ∧
      p'.queue = p.queue ++ (asked.zipIdx (p.generation + 1)).map fun entry =>
        ⟨entry.1, entry.2⟩ := by
  intro indexed expansions asked
  obtain ⟨start, hindex⟩ := eq_index_of_applied applied
  have haccounts := Loading.Accounts.run start p bindings
  have hprefixes : p' = p.lookUp (irisIn bindings) := by
    rw [← prefixes_index start, hindex]
  have hfacts : o'.facts.map Fact.iris = indexed := by
    have hiris := iris_index start bindings p
    rw [hindex] at hiris
    rw [hiris, funext Binding.irisOf?_eq]
  have hcomplete : irisIn (bindings.filter fun b => b.iris? ≠ none) = irisIn bindings := by
    have hsame : (fun b : Binding => if b.iris? ≠ none then b.iris? else none) = Binding.iris? := by
      funext b
      cases b.iris? <;> rfl
    rw [irisIn, List.filterMap_filter]
    simp only [decide_eq_true_eq, hsame, irisIn]
  simp only [index, Prod.mk.injEq] at hindex
  obtain ⟨rfl, -, rfl⟩ := hindex
  refine ⟨haccounts.total, rfl, hfacts, haccounts.skipped_eq, ?_, ?_⟩
  · rw [load, prefixes_index, hcomplete, hprefixes]
  · have hasked := (PrefixTable.HasAsked.lookUp p (irisIn bindings)).queue_eq
    rw [← hprefixes] at hasked
    exact hasked

/-- A solution that comes twice, and between the others one without domain and one with an empty
    range. -/
def mixedSolutions : List Binding :=
  [Fact.solution "http://one/visits" "http://base/Person" "http://two/Place",
    .ofPairs [("s", ⟨"uri", "http://lost/visits", none, none⟩)],
    Fact.solution "http://one/visits" "http://base/Person" "http://two/Place",
    Fact.solution "http://lost/knows" "http://lost/Person" "",
    Fact.solution "http://three/knows" "http://one/Person" "http://four/Person"]

/-- A table that has the prefix of one of the namespaces, and has asked for another. -/
def priorTable : PrefixTable :=
  (((PrefixTable.new "http://base/").insert "http://two/" "t").resolve "http://four/").1

/-- An ontology that holds a fact already. -/
def priorOntology : Ontology :=
  (Ontology.new.load [Fact.solution "http://old/a" "http://old/B" "http://old/C"] priorTable).1

def mixedLoad : Ontology × PrefixTable × LoadReport :=
  priorOntology.load mixedSolutions priorTable

theorem loads_account_for_solutions_mixed :
    mixedLoad.2.2.loaded + mixedLoad.2.2.skipped.length = 5 ∧
      mixedLoad.1.facts.map Fact.iris =
        [("http://one/visits", "http://base/Person", "http://two/Place"),
          ("http://one/visits", "http://base/Person", "http://two/Place"),
          ("http://three/knows", "http://one/Person", "http://four/Person")] ∧
      mixedLoad.2.2.skipped.map (fun m => (m.index, some m.missing.variableName)) =
        [(1, some "domain"), (3, some "range")] ∧
      mixedLoad.2.1.queue =
        [⟨"http://four/", 1⟩, ⟨"http://one/", 2⟩, ⟨"http://three/", 3⟩] := by
  have hload : priorOntology.load mixedSolutions priorTable =
      (mixedLoad.1, mixedLoad.2.1, mixedLoad.2.2) := by
    rw [Prod.eta, mixedLoad]
  obtain ⟨htotal, -, hfacts, hskipped, -, hqueue⟩ := loads_account_for_solutions (.inr hload)
  exact ⟨htotal, hfacts.trans rfl, hskipped.trans rfl, hqueue.trans rfl⟩

end Ontology

end QueryCanvas
