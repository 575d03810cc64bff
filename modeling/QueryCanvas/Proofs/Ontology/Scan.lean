/-
  QueryCanvas.Proofs.Ontology.Scan

  Looking up facts by label finds what a scan of all loaded facts finds,
  whatever was loaded, forgotten and relabelled before. So the suggestions for
  an element are one for each fact with the right label, in the order of
  loading and under numbers that follow one another.

  Every change keeps the indexes (`Indexed`), and along with them goes what
  the facts were read from, so that the order of the facts is known to be that
  of the solutions (`Scannable`).
-/

import QueryCanvas.Proofs.Ontology.Lookup
import QueryCanvas.Proofs.Ontology.Tickets
import QueryCanvas.Suggestion.Basic

namespace QueryCanvas

/-! ## Local names -/

/-- The text behind the last colon of a content, or the content if there is no colon in it. -/
def Sparql.IsLocalName (content name : String) : Prop :=
  ':' ∉ name.toList ∧ (content = name ∨ ∃ front, content = front ++ ":" ++ name)

theorem Sparql.isLocalName_localName (content : String) :
    IsLocalName content (localName content) := by
  have hjoined := Text.cutAfterLast_append (· == ':') content.toList
  have hrest := Text.cutAfterLast_rest (· == ':') content.toList
  refine ⟨fun hcolon => ?_, ?_⟩
  · rw [localName, String.toList_ofList] at hcolon
    exact absurd (hrest ':' hcolon) (by decide)
  · rcases Text.cutAfterLast_last (· == ':') content.toList with hnone | ⟨front, c, hlast, hc⟩
    · left
      rw [hnone, List.nil_append] at hjoined
      rw [localName, hjoined, String.ofList_toList]
    · right
      obtain rfl : c = ':' := by simpa using hc
      refine ⟨String.ofList front, ?_⟩
      rw [hlast] at hjoined
      rw [← String.toList_inj, ← hjoined]
      simp [localName]

namespace Ontology

/-! ## Changes -/

/-- The changes of what is loaded: calls, and prefixes that are taken up. -/
inductive Change
  | call (c : Call)
  | refresh (prefixes : PrefixTable)

/-- Makes a change and notes what has come of a call. -/
def update (o : Ontology) : Change → Ontology × Option Note
  | .call c => ((o.perform c).1, some (o.perform c).2)
  | .refresh prefixes => (o.refresh prefixes, none)

/-- Makes changes one after the other, from the ontology before anything was loaded. -/
def after (changes : List Change) : Ontology × List (Option Note) := runLogged update .new changes

/-- The solutions that were loaded last, none if they were forgotten since. -/
def lastLoaded (log : List (Option Note)) : List Binding :=
  (lastSource? (log.filterMap id)).elim [] Prod.fst

/-! ## The invariant -/

/-- The facts are those of the solutions loaded last, in order, and the indexes have their
    places. -/
structure Scannable (o : Ontology) (solutions : List Binding) : Prop where
  indexed : o.Indexed
  order : o.facts.map Fact.iris = solutions.filterMap Fact.irisOf?

namespace Scannable

variable {o o' : Ontology} {solutions : List Binding}

theorem new : Scannable .new [] := ⟨⟨.empty, .empty⟩, rfl⟩

/-- An ontology into which solutions were just loaded. The generation does not matter. -/
theorem loaded (bindings : List Binding) (p : PrefixTable) (generation : Nat) :
    Scannable { (Ontology.new.index bindings p).1 with generation := generation } bindings where
  indexed := ⟨(Indexed.index .new bindings p).byDomain, (Indexed.index .new bindings p).byProperty⟩
  order := iris_index .new bindings p

theorem refresh (h : Scannable o solutions) (p : PrefixTable) :
    Scannable (o.refresh p) solutions where
  indexed := h.indexed.refresh p
  order := (o.iris_refresh p).trans h.order

/-- A call keeps the facts, or replaces them together with their places. -/
theorem step {call : Call} {note : Note} {source : Option (List Binding × PrefixTable)}
    (h : Scannable o (source.elim [] Prod.fst)) (hstep : Step o call o' note) :
    Scannable o' ((note.source? source).elim [] Prod.fst) := by
  cases hstep with
  | begun => exact ⟨⟨h.indexed.byDomain, h.indexed.byProperty⟩, h.order⟩
  | applied current bindings p => exact loaded bindings p _
  | refused stale bindings p => exact h
  | loaded bindings p => exact loaded bindings p _
  | cleared => exact ⟨⟨.empty, .empty⟩, rfl⟩

/-- Every change keeps the invariant. -/
theorem update {log : List (Option Note)} (h : Scannable o (lastLoaded log)) (change : Change) :
    Scannable (o.update change).1 (lastLoaded (log ++ [(o.update change).2])) := by
  cases change with
  | call c =>
    have hlog : (log ++ [some (o.perform c).2]).filterMap id =
        log.filterMap id ++ [(o.perform c).2] := by simp
    rw [lastLoaded, Ontology.update, hlog, lastSource?_append]
    exact h.step (step_perform o c)
  | refresh p =>
    have hlog : (log ++ [none]).filterMap id = log.filterMap id := by simp
    rw [lastLoaded, Ontology.update, hlog]
    exact h.refresh p

/-- Every run of changes keeps the invariant. -/
theorem after (changes : List Change) :
    Scannable (Ontology.after changes).1 (lastLoaded (Ontology.after changes).2) :=
  runLogged_induct (P := fun o log => Scannable o (lastLoaded log)) new
    fun _ _ change _ h => h.update change

end Scannable

/-! ## Suggestions -/

namespace Indexed

variable {o : Ontology}

/-- A node that is no literal has one suggestion for each fact with its name as domain. -/
theorem suggestForNode_eq (h : o.Indexed) (node : NodeId) {kind : NodeKind}
    (other : kind ≠ .literal) (content : String) (last : Nat) :
    o.suggestForNode node kind content last =
      (last + (o.facts.filter (·.domain.label = Sparql.localName content)).length,
        ((o.facts.filter (·.domain.label = Sparql.localName content)).zipIdx (last + 1)).map
          fun entry => ⟨entry.2, node, entry.1.property, entry.1.domain, entry.1.range⟩) := by
  rw [suggestForNode, if_neg other, numbered_eq, h.factsForDomain_eq]

theorem suggestForEdge_eq (h : o.Indexed) (edge : EdgeId) (content : String) (last : Nat) :
    o.suggestForEdge edge content last =
      (last + (o.facts.filter (·.property.label = Sparql.localName content)).length,
        ((o.facts.filter (·.property.label = Sparql.localName content)).zipIdx (last + 1)).map
          fun entry => ⟨entry.2, edge, kindOfRange entry.1.range, entry.1.range⟩) := by
  rw [suggestForEdge, numbered_eq, h.factsForProperty_eq]

end Indexed

/-! ## Every run -/

/-- Whatever was loaded, forgotten and relabelled, in whatever order and with whichever tickets and
    prefixes: the facts are those of the solutions loaded last, in order. The facts that are found
    for a label are the facts with this label, each once and in order. And for every content, its
    local name gives one suggestion for each fact with this name as label, in order, under the
    numbers that follow the last one given. What an edge leads to is a literal exactly if the range
    is in the namespace of the datatypes. -/
theorem found_as_by_scan (changes : List Change) :
    let o := (after changes).1
    o.facts.map Fact.iris = (lastLoaded (after changes).2).filterMap Fact.irisOf? ∧
      (∀ label, o.factsForDomain label = o.facts.filter (·.domain.label = label)) ∧
      (∀ label, o.factsForProperty label = o.facts.filter (·.property.label = label)) ∧
      ∀ content, ∃ name, Sparql.IsLocalName content name ∧
        (∀ node kind last, kind ≠ .literal →
          let found := o.facts.filter (·.domain.label = name)
          o.suggestForNode node kind content last =
            (last + found.length, (found.zipIdx (last + 1)).map fun entry =>
              ⟨entry.2, node, entry.1.property, entry.1.domain, entry.1.range⟩)) ∧
        ∀ edge last,
          let found := o.facts.filter (·.property.label = name)
          o.suggestForEdge edge content last =
            (last + found.length, (found.zipIdx (last + 1)).map fun entry =>
              ⟨entry.2, edge,
                if entry.1.range.expansion = "http://www.w3.org/2001/XMLSchema#" then .literal
                else .uri,
                entry.1.range⟩) := by
  intro o
  have h : Scannable o (lastLoaded (after changes).2) := .after changes
  refine ⟨h.order, h.indexed.factsForDomain_eq, h.indexed.factsForProperty_eq, fun content =>
    ⟨Sparql.localName content, Sparql.isLocalName_localName content, ?_, ?_⟩⟩
  · intro node kind last other
    exact h.indexed.suggestForNode_eq node other content last
  · intro edge last
    exact h.indexed.suggestForEdge_eq edge content last

-- the malformed solution in the middle leaves no gap, and nothing is left of the first load
example :
    let wrote := Fact.solution "http://base/wrote" "http://base/Person" "http://base/Book"
    let knows := Fact.solution "http://base/knows" "http://base/Person" "http://base/Person"
    let o := (after [.call (.load [knows, wrote] (.new "http://base/")), .call .beginLoad,
      .call (.applyLoad ⟨2⟩ [wrote, .empty, knows] (.new "http://base/"))]).1
    (o.factsForDomain "Person").map Fact.iris =
      [("http://base/wrote", "http://base/Person", "http://base/Book"),
        ("http://base/knows", "http://base/Person", "http://base/Person")] := by
  rfl

end Ontology

end QueryCanvas
