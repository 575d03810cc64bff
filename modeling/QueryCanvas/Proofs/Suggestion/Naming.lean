/-
  QueryCanvas.Proofs.Suggestion.Naming

  When the name of a term leads back to the facts about it.

  A name is put on the canvas as prefix and local name, or as the IRI in full
  while no prefix is known. Facts are looked up by label, which has spaces for
  the underscores of the local name, and with the text behind the last colon of
  what the canvas shows. The two meet exactly for plain terms: the prefix is
  known, and the local name has neither an underscore nor a colon
  (`Term.localName_qualifiedName_iff`). A fact about another term is found by
  accident only, if its label happens to be the text behind the colon.
-/

import QueryCanvas.Proofs.Ontology.Classes
import QueryCanvas.Proofs.Ontology.Scan

namespace QueryCanvas

/-! ## Texts behind the last colon -/

namespace Sparql

/-- A text without colon goes with what stands before it. -/
theorem localName_append {s : String} (h : ':' ∉ s.toList) (front : String) :
    localName (front ++ s) = localName front ++ s := by
  have hrest : ∀ c ∈ s.toList, (c == ':') = false := fun c hc =>
    beq_eq_false_iff_ne.2 fun hcolon => h (hcolon ▸ hc)
  rw [localName, String.toList_append, Text.cutAfterLast_append_rest hrest, String.ofList_append,
    String.ofList_toList, localName]

theorem localName_concat (front : String) : localName (front ++ ":") = "" := by
  have hcolon : (":" : String).toList = [':'] := rfl
  rw [localName, String.toList_append, hcolon, Text.cutAfterLast_concat rfl, String.ofList_nil]

theorem localName_of_no_colon {s : String} (h : ':' ∉ s.toList) : localName s = s := by
  have hempty : localName "" = "" := rfl
  have happend := localName_append h ""
  rwa [String.empty_append, hempty, String.empty_append] at happend

end Sparql

/-! ## Labels -/

namespace Iri

theorem toList_labelOf (localName : String) :
    (labelOf localName).toList = localName.toList.map fun c => if c = '_' then ' ' else c :=
  String.toList_ofList

/-- A label is its local name unless there are underscores in it. -/
theorem labelOf_eq_self_iff (localName : String) :
    labelOf localName = localName ↔ '_' ∉ localName.toList := by
  have hspace : ∀ c : Char, (if c = '_' then ' ' else c) = c ↔ c ≠ '_' := by
    intro c
    by_cases hc : c = '_'
    · rw [if_pos hc, hc]
      decide
    · simp [hc]
  rw [← String.toList_inj, toList_labelOf]
  constructor
  · intro hsame hmem
    have hfixed := List.map_inj_left.1 (hsame.trans (List.map_id' _).symm) '_' hmem
    exact (hspace '_').1 hfixed rfl
  · intro hnone
    refine (List.map_congr_left fun c hc => ?_).trans (List.map_id' _)
    exact (hspace c).2 fun hunderscore => hnone (hunderscore ▸ hc)

/-- Other characters stay in a label, and none but spaces come in. -/
theorem mem_labelOf_iff {c : Char} (underscore : c ≠ '_') (space : c ≠ ' ') (localName : String) :
    c ∈ (labelOf localName).toList ↔ c ∈ localName.toList := by
  rw [toList_labelOf, List.mem_map]
  constructor
  · rintro ⟨d, hd, hcd⟩
    by_cases hunderscore : d = '_'
    · rw [if_pos hunderscore] at hcd
      exact absurd hcd.symm space
    · rw [if_neg hunderscore] at hcd
      exact hcd ▸ hd
  · intro hc
    exact ⟨c, hc, if_neg underscore⟩

end Iri

/-! ## Names and labels of one term -/

namespace Term

/-- The prefix of the term is known, or there is none to be known, and the local name has neither
    an underscore nor a colon. -/
def IsPlain (t : Term) : Prop :=
  t.hasPrefix = true ∧ '_' ∉ t.localName.toList ∧ ':' ∉ t.localName.toList

variable {t : Term}

/-- The namespace of a term is empty or ends in a separator. -/
theorem IsParted.expansion_cases (h : t.IsParted) :
    t.expansion = "" ∨
      ∃ front c, Iri.isSeparator c = true ∧ t.expansion = front ++ String.ofList [c] := by
  have hsplit := congrArg Prod.fst h.split_eq
  simp only [Iri.split] at hsplit
  rw [← hsplit]
  rcases Text.cutAfterLast_last Iri.isSeparator t.iri.toList with hnone | ⟨front, c, hlast, hc⟩
  · exact .inl (by rw [hnone, String.ofList_nil])
  · exact .inr ⟨String.ofList front, c, hc, by rw [hlast, String.ofList_append]⟩

/-- No separator stands in a local name. -/
theorem IsParted.separator_not_mem (h : t.IsParted) {c : Char} (hc : Iri.isSeparator c = true) :
    c ∉ t.localName.toList := by
  have hsplit := congrArg Prod.snd h.split_eq
  simp only [Iri.split] at hsplit
  intro hmem
  rw [← hsplit, String.toList_ofList] at hmem
  have hnot := Text.cutAfterLast_rest Iri.isSeparator t.iri.toList c hmem
  rw [hc] at hnot
  cases hnot

/-- With a prefix, the text behind the last colon of the name is that of the local name. -/
theorem IsParted.localName_of_hasPrefix (h : t.IsParted) (known : t.hasPrefix = true)
    (colon : ':' ∉ t.localName.toList) : Sparql.localName t.qualifiedName = t.localName := by
  by_cases hempty : t.expansion = ""
  · have hname : t.qualifiedName = t.localName := by
      rw [qualifiedName_of_full (by simp [isPrefixed, hempty]), h.iri_eq, hempty,
        String.empty_append]
    rw [hname, Sparql.localName_of_no_colon colon]
  · have hname : t.qualifiedName = t.short ++ ":" ++ t.localName :=
      qualifiedName_of_prefixed (by simp [isPrefixed, known, hempty])
    rw [hname, Sparql.localName_append colon, Sparql.localName_concat, String.empty_append]

/-- Without one, the end of the namespace goes with the local name. -/
theorem IsParted.exists_separator_of_unknown (h : t.IsParted) (unknown : t.hasPrefix = false)
    (colon : ':' ∉ t.localName.toList) :
    ∃ c, Iri.isSeparator c = true ∧ c ∈ (Sparql.localName t.qualifiedName).toList := by
  have hempty : t.expansion ≠ "" := by
    intro hempty
    simp [hasPrefix, hempty] at unknown
  obtain hnone | ⟨front, c, hc, hend⟩ := h.expansion_cases
  · exact absurd hnone hempty
  have hname : t.qualifiedName = front ++ (String.ofList [c] ++ t.localName) := by
    rw [qualifiedName_of_full (by simp [isPrefixed, unknown]), h.iri_eq, hend, String.append_assoc]
  have hcolon : ':' ∉ (String.ofList [c] ++ t.localName).toList := by
    rw [String.toList_append, String.toList_ofList, List.mem_append, List.mem_singleton]
    rintro (rfl | hmem)
    · cases hc
    · exact colon hmem
  refine ⟨c, hc, ?_⟩
  rw [hname, Sparql.localName_append hcolon]
  simp

/-- The text behind the last colon of the name is the label exactly for plain terms. -/
theorem localName_qualifiedName_iff (h : t.IsParted) :
    Sparql.localName t.qualifiedName = t.label ↔ t.IsPlain := by
  rw [h.label_eq]
  by_cases hcolon : ':' ∈ t.localName.toList
  -- the label keeps the colon, and no colon stands behind the last one
  · refine iff_of_false (fun hsame => ?_) fun hplain => hplain.2.2 hcolon
    have hnone := (Sparql.isLocalName_localName t.qualifiedName).1
    rw [hsame, Iri.mem_labelOf_iff (by decide) (by decide)] at hnone
    exact hnone hcolon
  · cases hknown : t.hasPrefix with
    | true =>
      rw [h.localName_of_hasPrefix hknown hcolon, eq_comm, Iri.labelOf_eq_self_iff, IsPlain]
      simp [hknown, hcolon]
    | false =>
      obtain ⟨c, hc, hmem⟩ := h.exists_separator_of_unknown hknown hcolon
      refine iff_of_false (fun hsame => ?_) fun hplain => ?_
      · rw [hsame] at hmem
        have hother : c ≠ '_' ∧ c ≠ ' ' := by
          constructor
          · rintro rfl
            cases hc
          · rintro rfl
            cases hc
        rw [Iri.mem_labelOf_iff hother.1 hother.2] at hmem
        exact h.separator_not_mem hc hmem
      · rw [hplain.1] at hknown
        cases hknown

-- while the prefix is not known, and with a colon in the local name
example :
    let place := (resolve "http://one/Place" (.new "http://base/")).2
    let version := (resolve "http://base/v:2" (.new "http://base/")).2
    (Sparql.localName place.qualifiedName, place.label) = ("//one/Place", "Place") ∧
      (Sparql.localName version.qualifiedName, version.label) = ("2", "v:2") := by
  exact ⟨rfl, rfl⟩

end Term

/-! ## Names and facts -/

namespace Ontology

theorem Step.isParted {o o' : Ontology} {call : Call} {note : Note} (hstep : Step o call o' note)
    (h : ∀ t ∈ o.terms, t.IsParted) : ∀ t ∈ o'.terms, t.IsParted := by
  cases hstep with
  | begun => exact h
  | applied current bindings p => exact index_isParted .new bindings p
  | refused stale bindings p => exact h
  | loaded bindings p => exact index_isParted .new bindings p
  | cleared => exact fun t ht => absurd ht List.not_mem_nil

/-- Whatever was loaded, forgotten and relabelled, the terms of the facts have the parts of their
    IRIs. -/
theorem after_isParted (changes : List Change) : ∀ t ∈ (after changes).1.terms, t.IsParted := by
  refine runLogged_induct (P := fun (o : Ontology) _ => ∀ t ∈ o.terms, t.IsParted)
    (fun t ht => absurd ht List.not_mem_nil) fun (o : Ontology) log change _ h => ?_
  cases change with
  | call c => exact (step_perform o c).isParted h
  | refresh p =>
    intro t ht
    obtain ⟨t', ht', rfl⟩ := mem_terms_refresh ht
    exact (h t' ht').refresh p

theorem map_numbered {β γ δ : Type} {make : Nat → β → γ} {read : γ → δ} {same : β → δ}
    (h : ∀ index b, read (make index b) = same b) (last : Nat) (l : List β) :
    (numbered last make l).2.map read = l.map same := by
  induction l generalizing last with
  | nil => rfl
  | cons b rest ih => rw [numbered, List.map_cons, ih, h, List.map_cons]

/-- The classes that are suggested for an edge are the ranges of the facts found for it. -/
theorem cls_suggestForEdge (o : Ontology) (edge : EdgeId) (content : String) (last : Nat) :
    (o.suggestForEdge edge content last).2.map NodeSuggestion.cls =
      (o.factsForProperty (Sparql.localName content)).map Fact.range := by
  rw [suggestForEdge]
  exact map_numbered (by exact fun _ _ => rfl) last _

theorem property_suggestForNode (o : Ontology) (node : NodeId) (content : String) (last : Nat) :
    (o.suggestForNode node .uri content last).2.map EdgeSuggestion.property =
      (o.factsForDomain (Sparql.localName content)).map Fact.property := by
  rw [suggestForNode, if_neg (by decide)]
  exact map_numbered (by exact fun _ _ => rfl) last _

theorem infer_ne_unknown_iff (o : Ontology) (content : String) :
    RangeInference.infer content o ≠ .unknown ↔
      o.factsForProperty (Sparql.localName content) ≠ [] := by
  rw [← not_iff_not, not_not, not_not, ← RangeInference.collect_eq_nil_iff]
  have hinfer : RangeInference.infer content o =
      .ofRanges (RangeInference.collect (o.factsForProperty (Sparql.localName content))) := rfl
  rw [hinfer]
  rcases RangeInference.collect _ with _ | ⟨first, _ | ⟨second, rest⟩⟩
  · exact iff_of_true rfl rfl
  · exact iff_of_false (fun h => by cases h) (fun h => by cases h)
  · exact iff_of_false (fun h => by cases h) (fun h => by cases h)

/-- What is found for the name of a fact is the fact itself, if its own label is that name, or
    another one. -/
theorem exists_labelled_iff {δ : Type} {facts : List Fact} {f : Fact} (hf : f ∈ facts)
    (label : Fact → String) (read : Fact → δ) {name : String} {plain : Prop}
    (own : label f = name ↔ plain) :
    (∃ g ∈ facts, label g = name ∧ read g = read f) ↔
      plain ∨ ∃ g ∈ facts, g ≠ f ∧ label g = name ∧ read g = read f := by
  constructor
  · rintro ⟨g, hg, hlabel, hread⟩
    by_cases hsame : g = f
    · exact .inl (own.1 (hsame ▸ hlabel))
    · exact .inr ⟨g, hg, hsame, hlabel, hread⟩
  · rintro (hplain | ⟨g, hg, -, hlabel, hread⟩)
    · exact ⟨f, hf, own.2 hplain, rfl⟩
    · exact ⟨g, hg, hlabel, hread⟩

/-- Whatever was loaded, forgotten and relabelled, with whichever prefixes: the name under which a
    property or a class is put on the canvas leads back to the fact exactly if the term is plain.
    For a term that is not, there is a suggestion of the range or the property, and a range to be
    inferred, only as far as other facts happen to have the text behind the colon as their label. -/
theorem names_lead_back_iff (changes : List Change) {f : Fact}
    (loaded : f ∈ (after changes).1.facts) :
    let o := (after changes).1
    let property := f.property.qualifiedName
    let domain := f.domain.qualifiedName
    (f ∈ o.factsForProperty (Sparql.localName property) ↔ f.property.IsPlain) ∧
      (f ∈ o.factsForDomain (Sparql.localName domain) ↔ f.domain.IsPlain) ∧
      (∀ edge last,
        f.range ∈ (o.suggestForEdge edge property last).2.map NodeSuggestion.cls ↔
          f.property.IsPlain ∨ ∃ g ∈ o.facts, g ≠ f ∧
            g.property.label = Sparql.localName property ∧ g.range = f.range) ∧
      (RangeInference.infer property o ≠ .unknown ↔
        f.property.IsPlain ∨ ∃ g ∈ o.facts, g ≠ f ∧
          g.property.label = Sparql.localName property) ∧
      ∀ node last,
        f.property ∈ (o.suggestForNode node .uri domain last).2.map EdgeSuggestion.property ↔
          f.domain.IsPlain ∨ ∃ g ∈ o.facts, g ≠ f ∧
            g.domain.label = Sparql.localName domain ∧ g.property = f.property := by
  intro o property domain
  have hf : f ∈ o.facts := loaded
  have hindexed : o.Indexed := (Scannable.after changes).indexed
  have hterm : ∀ t ∈ f.terms, t.IsParted := fun t ht =>
    after_isParted changes t (List.mem_flatMap.2 ⟨f, hf, ht⟩)
  have hproperty : f.property.label = Sparql.localName property ↔ f.property.IsPlain :=
    eq_comm.trans (Term.localName_qualifiedName_iff (hterm f.property (by simp [Fact.terms])))
  have hdomain : f.domain.label = Sparql.localName domain ↔ f.domain.IsPlain :=
    eq_comm.trans (Term.localName_qualifiedName_iff (hterm f.domain (by simp [Fact.terms])))
  refine ⟨?_, ?_, fun edge last => ?_, ?_, fun node last => ?_⟩
  · rw [hindexed.factsForProperty_eq, List.mem_filter, and_iff_right hf, decide_eq_true_eq,
      hproperty]
  · rw [hindexed.factsForDomain_eq, List.mem_filter, and_iff_right hf, decide_eq_true_eq,
      hdomain]
  · rw [cls_suggestForEdge, hindexed.factsForProperty_eq,
      ← exists_labelled_iff hf (·.property.label) Fact.range hproperty]
    simp only [List.mem_map, List.mem_filter, decide_eq_true_eq, and_assoc]
  · have hany := exists_labelled_iff hf (·.property.label) (fun _ => ()) hproperty
    simp only [and_true] at hany
    rw [infer_ne_unknown_iff, hindexed.factsForProperty_eq, ← hany]
    simp only [ne_eq, List.filter_eq_nil_iff, decide_eq_true_eq, not_forall, not_not, exists_prop]
  · rw [property_suggestForNode, hindexed.factsForDomain_eq,
      ← exists_labelled_iff hf (·.domain.label) Fact.property hdomain]
    simp only [List.mem_map, List.mem_filter, decide_eq_true_eq, and_assoc]

/-- A fact is loaded before the prefix of its property is known. -/
def writtenChanges : List Change :=
  [.call (.load [Fact.solution "http://one/wrote" "http://base/Person" "http://one/Book"]
      (.new "http://base/")),
    .refresh ((PrefixTable.new "http://base/").insert "http://one/" "o")]

/-- The fact after the prefix was taken up: its property and its domain are plain. -/
def written : Fact :=
  ⟨⟨"http://one/wrote", "http://one/", "o", "wrote", "wrote"⟩,
    ⟨"http://base/Person", "http://base/", "", "Person", "Person"⟩,
    ⟨"http://one/Book", "http://one/", "o", "Book", "Book"⟩⟩

theorem names_lead_back_iff_written :
    let o := (after writtenChanges).1
    written ∈ o.facts ∧ written ∈ o.factsForProperty (Sparql.localName "o:wrote") ∧
      (∀ edge last, written.range ∈ (o.suggestForEdge edge "o:wrote" last).2.map
        NodeSuggestion.cls) ∧
      RangeInference.infer "o:wrote" o ≠ .unknown ∧
      ∀ node last, written.property ∈ (o.suggestForNode node .uri ":Person" last).2.map
        EdgeSuggestion.property := by
  have hloaded : written ∈ (after writtenChanges).1.facts := List.mem_cons_self
  have hproperty : written.property.IsPlain := ⟨by decide, by decide, by decide⟩
  have hdomain : written.domain.IsPlain := ⟨by decide, by decide, by decide⟩
  obtain ⟨hfound, -, hedge, hrange, hnode⟩ := names_lead_back_iff writtenChanges hloaded
  exact ⟨hloaded, hfound.2 hproperty, fun edge last => (hedge edge last).2 (.inl hproperty),
    hrange.2 (.inl hproperty), fun node last => (hnode node last).2 (.inl hdomain)⟩

/-- A fact whose property and domain have underscores in their local names. -/
def underscored : Ontology :=
  (after [.call (.load [Fact.solution "http://base/has_author" "http://base/Written_Work"
    "http://base/Person"] (.new "http://base/"))]).1

/-- Neither name leads back to the fact. -/
theorem names_with_underscores_find_nothing :
    ∃ f ∈ underscored.facts,
      f.property.qualifiedName = ":has_author" ∧ f.domain.qualifiedName = ":Written_Work" ∧
      (underscored.suggestForEdge ⟨1⟩ f.property.qualifiedName 0).2 = [] ∧
      RangeInference.infer f.property.qualifiedName underscored = .unknown ∧
      (underscored.suggestForNode ⟨1⟩ .uri f.domain.qualifiedName 0).2 = [] := by
  refine ⟨_, List.mem_singleton.2 rfl, ?_, ?_, ?_, ?_, ?_⟩
  · rfl
  · rfl
  · rfl
  · rfl
  · rfl

end Ontology

end QueryCanvas
