/-
  QueryCanvas.Proofs.Session.Names

  The names of terms, as accepted suggestions put them on the canvas, and what
  the query makes of them.

  A name with a prefix is read by the owner of the prefix, the namespace that
  took it first. A name without one is an IRI in full, and is read as itself
  unless its scheme happens to be a known prefix.
-/

import QueryCanvas.Proofs.Session.Vocabulary
import QueryCanvas.Proofs.Sparql.Iri
import QueryCanvas.Settings.Basic

namespace QueryCanvas

open Sparql (isBracketed renderIri)

namespace Term

/-! ## Names with and without a prefix -/

variable {t : Term} {p : PrefixTable}

/-- The prefix in the name of a current term is the one that is known for its namespace. -/
theorem IsCurrent.peek?_of_prefixed (h : t.IsCurrent p) (hprefixed : t.isPrefixed) :
    p.peek? t.expansion = some t.short := by
  simp only [isPrefixed, hasPrefix, Bool.and_eq_true, Bool.or_eq_true,
    decide_eq_true_eq] at hprefixed
  obtain ⟨hshort | hempty, hne⟩ := hprefixed
  · have hshort_eq := h.short_eq
    cases hpeek : p.peek? t.expansion with
    | none =>
      rw [hpeek] at hshort_eq
      exact absurd hshort_eq hshort
    | some short =>
      rw [hpeek] at hshort_eq
      rw [hshort_eq]
      rfl
  · exact absurd hempty hne

theorem IsCurrent.no_colon (h : t.IsCurrent p) (sound : p.Sound) (hprefixed : t.isPrefixed) :
    ':' ∉ t.short.toList := by
  have hpeek := h.peek?_of_prefixed hprefixed
  by_cases hbase : t.expansion = p.base
  · rw [hbase, p.peek?_base] at hpeek
    rw [← Option.some.inj hpeek]
    simp
  · exact (sound.isShort_of_peek? hbase hpeek).no_colon

end Term

namespace Session

/-! ## Reading names back -/

/-- When the name of a term is read back as its IRI.

    A prefix has an owner, a namespace with this prefix, and the name is read as an IRI of the
    owner; so it is read back exactly if the namespace of the term is the owner. An IRI in full is
    read back exactly if no known prefix takes the text before its first colon. Either way the name
    must not look like an IRI in angle brackets. -/
theorem Reachable.name_reads_back_iff {allowed : Operation Float → Prop} {base : String}
    {sizes : ShapeSizes Float} {s : Session}
    (reached : Reachable allowed IsShortened base sizes s) {t : Term} (ht : t ∈ s.terms) :
    (t.isPrefixed = true → ∃ owner,
        s.prefixes.expansionOf? t.short = some owner ∧ s.prefixes.peek? owner = some t.short ∧
          (renderIri t.qualifiedName s.prefixes = "<" ++ t.iri ++ ">" ↔
            isBracketed t.qualifiedName = false ∧ owner = t.expansion)) ∧
      (t.isPrefixed = false →
        (renderIri t.qualifiedName s.prefixes = "<" ++ t.iri ++ ">" ↔
          isBracketed t.qualifiedName = false ∧
            ∀ before behind owner, Text.cutAtFirst? ':' t.iri.toList = some (before, behind) →
              s.prefixes.expansionOf? (String.ofList before) = some owner →
                owner = String.ofList before ++ ":")) := by
  have hcurrent : s.Current := reached.current
  have hterm : t.IsCurrent s.prefixes := hcurrent.terms t ht
  refine ⟨fun hprefixed => ?_, fun hfull => ?_⟩
  · obtain ⟨owner, howner, hshort⟩ :=
      hcurrent.prefixes.owner_of_peek? (hterm.peek?_of_prefixed hprefixed)
    refine ⟨owner, howner, hshort, ?_⟩
    rw [Term.qualifiedName_of_prefixed hprefixed, hterm.iri_eq]
    exact Sparql.renderIri_name_eq_iff (hterm.no_colon hcurrent.prefixes hprefixed) howner _ _
  · rw [Term.qualifiedName_of_full hfull]
    exact Sparql.renderIri_full_eq_iff t.iri

/-! ## Two namespaces with one prefix -/

/-- A fact about a property of one namespace and a class of another. -/
def mixedFact : Binding :=
  .ofPairs [("s", ⟨"uri", "http://one/knows", none, none⟩),
    ("domain", ⟨"uri", "http://two/Person", none, none⟩),
    ("range", ⟨"uri", "http://two/Person", none, none⟩)]

/-- The session after the fact was loaded and the prefix service has given both namespaces the
    same prefix. -/
def sharing : Session :=
  let (begun, ticket) := (Session.new "http://base/" defaultSizes).beginLoad
  let (asked, requests) := (begun.finishLoad ticket (.ok ⟨[], [mixedFact]⟩)).1.beginPrefixes
  (asked.finishPrefixes (requests.map fun request => (request, .ok "p:a"))).1

theorem reachable_sharing :
    Reachable (fun _ => True) IsShortened "http://base/" defaultSizes sharing := by
  refine Reachable.finishPrefixes (.beginPrefixes (.finishLoad (.beginLoad .new) _ _)) ?_
  intro entry he shortened hshortened
  obtain ⟨request, -, rfl⟩ := List.mem_map.1 he
  cases hshortened
  exact ⟨"p", ⟨by decide, by decide⟩, rfl⟩

/-- The class, whose prefix the other namespace took first. -/
def sharedClass : Term := ⟨"http://two/Person", "http://two/", "p", "Person", "Person"⟩

theorem sharedClass_mem : sharedClass ∈ sharing.terms := by
  have hplace : sharing.terms[1]? = some sharedClass := rfl
  exact List.mem_of_getElem? hplace

/-- The class is read as one of the other namespace. -/
theorem name_misread :
    Reachable (fun _ => True) IsShortened "http://base/" defaultSizes sharing ∧
      sharedClass ∈ sharing.terms ∧
        renderIri sharedClass.qualifiedName sharing.prefixes = "<http://one/Person>" ∧
          renderIri sharedClass.qualifiedName sharing.prefixes ≠ "<" ++ sharedClass.iri ++ ">" := by
  refine ⟨reachable_sharing, sharedClass_mem, rfl, ?_⟩
  have hread : renderIri sharedClass.qualifiedName sharing.prefixes = "<http://one/Person>" := rfl
  rw [hread]
  decide

theorem name_reads_back_iff_sharing :
    sharedClass.isPrefixed = true ∧ ∃ owner,
      sharing.prefixes.expansionOf? "p" = some owner ∧ sharing.prefixes.peek? owner = some "p" ∧
        (renderIri "p:Person" sharing.prefixes = "<http://two/Person>" ↔
          isBracketed "p:Person" = false ∧ owner = "http://two/") :=
  ⟨rfl, (Reachable.name_reads_back_iff reachable_sharing sharedClass_mem).1 rfl⟩

end Session

end QueryCanvas
