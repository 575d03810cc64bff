/-
  QueryCanvas.Proofs.Session.Reload

  What it does to the diagram to load the same facts once more.

  A load forgets for which edges ranges were inferred, and all ranges are
  inferred again. So anonymous nodes get the classes that the edges at them
  dictate (`dictated?`), whatever gave them the classes that they had: where a
  suggestion with one of several ranges was accepted, that range gives way to all
  of them. Edges, contents and outlines stay as they are, and when the same
  facts are loaded yet again, so does everything.
-/

import QueryCanvas.Proofs.Canvas.Layout
import QueryCanvas.Proofs.Session.Inference
import QueryCanvas.Proofs.Session.Vocabulary

namespace QueryCanvas

/-! ## Classes and kinds -/

namespace Node

variable {α : Type} {n : Node α}

/-- The node with another class and the kind that goes with it, if there is a class to take. -/
def withClass (n : Node α) : Option (String × Bool) → Node α
  | some (label, merged) =>
    { n with inferredClass := some label, kind := if merged then .amalgam else .unboundVariable }
  | none => n

/-- The node has the class already, and the kind that goes with it. -/
def AgreesWith (n : Node α) : Option (String × Bool) → Prop
  | some (label, merged) =>
    n.inferredClass = some label ∧ n.kind = if merged then .amalgam else .unboundVariable
  | none => True

theorem withClass_eq_self_iff {verdict : Option (String × Bool)} :
    n.withClass verdict = n ↔ n.AgreesWith verdict := by
  cases verdict with
  | none => simp [withClass, AgreesWith]
  | some cls =>
    constructor
    · intro h
      exact ⟨congrArg inferredClass h.symm, congrArg kind h.symm⟩
    · rintro ⟨hclass, hkind⟩
      simp only [withClass, ← hclass, ← hkind]

theorem agreesWith_withClass (verdict : Option (String × Bool)) :
    (n.withClass verdict).AgreesWith verdict := by
  cases verdict with
  | none => trivial
  | some cls => exact ⟨rfl, rfl⟩

@[simp] theorem id_withClass (verdict : Option (String × Bool)) :
    (n.withClass verdict).id = n.id := by
  cases verdict <;> rfl

/-- A decision between the kinds of anonymous nodes leaves the outline as it is. -/
theorem decided_eq_withClass [Scalar α] {sizes : ShapeSizes α} (inferable : n.kind.isInferable)
    (outline : n.shape = n.kind.shape n.position sizes) (verdict : Option (String × Bool)) :
    n.decided verdict sizes = n.withClass verdict := by
  cases verdict with
  | none => rfl
  | some cls =>
    have hshape := NodeKind.shape_of_inferable (α := α) inferable cls.2
    simp only [decided, classified, reshaped, withClass, hshape, ← outline]

end Node

namespace Session

variable {s : Session}

/-! ## What edges dictate -/

/-- The class that the edges at a node dictate: of the complete edges that end there and show a
    property with a known class, the last decides. -/
def dictated? (s : Session) (node : NodeId) : Option (String × Bool) :=
  (s.canvas.diagram.edges.filterMap fun e =>
    if e.complete = true ∧ e.kind = .boundProperty ∧ e.object.node? = some node then
      s.ontology.classOf? e.content
    else none).getLast?

/-- While no range has been inferred, the edges that dictate a class are due. -/
theorem verdict?_of_forgotten (forgotten : s.inferred = .empty) {n : Node Float}
    (found : s.canvas.node? n.id = some n) :
    s.ontology.verdict? s.targets n.id =
      if n.kind.isInferable then s.dictated? n.id else none := by
  have hunseen : ∀ e : Edge Float, s.inferred.get? e.id ≠ some e.content := by simp [forgotten]
  rw [verdict?_targets found]
  by_cases hinferable : n.kind.isInferable = true
  · simp only [DueFor, hunseen, hinferable, dictated?, ne_eq, not_false_eq_true, true_and, and_true,
      if_true]
  · simp [DueFor, hinferable]

/-- What range inference does after everything was forgotten. -/
theorem classify_targets (wf : s.canvas.WellFormed) (current : s.canvas.Current)
    (forgotten : s.inferred = .empty) :
    s.classify s.targets = { s.canvas.diagram with
      nodes := s.canvas.diagram.nodes.map fun n =>
        if n.kind.isInferable then n.withClass (s.dictated? n.id) else n } := by
  have hnode : ∀ n ∈ s.canvas.diagram.nodes,
      n.decided (s.ontology.verdict? s.targets n.id) s.canvas.sizes =
        if n.kind.isInferable then n.withClass (s.dictated? n.id) else n := by
    intro n hn
    rw [verdict?_of_forgotten forgotten (Diagram.node?_of_mem wf.nodes_nodup hn)]
    split
    · next hinferable => exact Node.decided_eq_withClass hinferable (current.outlines n hn) _
    · rfl
  rw [classify, List.map_congr_left hnode]

/-! ## The same facts again -/

section Reached

variable {allowed : Operation Float → Prop} {answered : String → Prop} {base : String}
  {sizes : ShapeSizes Float}

theorem Reachable.indexed (reached : Reachable allowed answered base sizes s) :
    s.ontology.Indexed := by
  refine reached.vocabulary_induct (P := fun s => s.ontology.Indexed) ⟨.empty, .empty⟩
    (fun keeps h => keeps.ontology ▸ h) ?beginLoad ?load id ?finishPrefixes
  case beginLoad => exact fun h => ⟨h.byDomain, h.byProperty⟩
  case load => exact fun bindings _ => .index _ bindings _
  case finishPrefixes => exact fun _ h => h.refresh _

/-- Loading facts with the same IRIs changes no class. -/
theorem Reachable.classOf?_loaded (reached : Reachable allowed answered base sizes s)
    {bindings : List Binding}
    (same : s.ontology.facts.map Fact.iris = bindings.filterMap Fact.irisOf?) (content : String) :
    (s.loaded bindings).ontology.classOf? content = s.ontology.classOf? content := by
  refine Ontology.classOf?_congr reached.indexed (.index _ bindings _) ?_ content
  have hbefore : ∀ t ∈ s.ontology.terms, t.IsCurrent s.prefixes :=
    fun t ht => reached.showsKnown.terms t (List.mem_append_left _ ht)
  have hafter := s.ontology.index_isCurrent bindings reached.showsKnown.unasked
  calc (s.loaded bindings).ontology.facts.map Fact.bare
      = ((s.loaded bindings).ontology.facts.map Fact.iris).map Fact.ofIris :=
        Ontology.bare_facts_eq hafter
    _ = (s.ontology.facts.map Fact.iris).map Fact.ofIris := by
        rw [same, loaded, Ontology.iris_index]
    _ = s.ontology.facts.map Fact.bare := (Ontology.bare_facts_eq hbefore).symm

/-- Begins a load and finishes it at once. -/
def reload (s : Session) (results : Results) : Session × Except SessionError LoadReport :=
  s.beginLoad.1.finishLoad s.beginLoad.2 (.ok results)

theorem Reachable.reload (reached : Reachable allowed answered base sizes s) (results : Results) :
    Reachable allowed answered base sizes (s.reload results).1 :=
  .finishLoad (.beginLoad reached) _ _

/-- A load that is finished at once is not superseded. -/
theorem reload_eq (s : Session) (results : Results) :
    ∃ report, s.reload results =
      ((s.beginLoad.1.loaded results.bindings).sync.refreshSuggestions, .ok report) :=
  ⟨_, finishLoad_of_current rfl results⟩

theorem ontology_reload (s : Session) (results : Results) :
    (s.reload results).1.ontology = (s.beginLoad.1.loaded results.bindings).ontology := by
  obtain ⟨report, hreload⟩ := s.reload_eq results
  rw [hreload]
  exact (KeepsTerms.of_proceeds ((Proceeds.sync _).trans (.refreshSuggestions _))).ontology

variable {results : Results}

theorem reload_diagram (reached : Reachable allowed answered base sizes s)
    (same : s.ontology.facts.map Fact.iris = results.bindings.filterMap Fact.irisOf?) :
    (s.reload results).1.canvas.diagram = { s.canvas.diagram with
      nodes := s.canvas.diagram.nodes.map fun n =>
        if n.kind.isInferable then n.withClass (s.dictated? n.id) else n } := by
  have hbegun : Reachable allowed answered base sizes s.beginLoad.1 := .beginLoad reached
  have hclass : ∀ content, (s.beginLoad.1.loaded results.bindings).ontology.classOf? content =
      s.ontology.classOf? content := hbegun.classOf?_loaded same
  have hdictated : ∀ id, (s.beginLoad.1.loaded results.bindings).dictated? id = s.dictated? id := by
    intro id
    simp only [dictated?, hclass]
    rfl
  obtain ⟨report, hreload⟩ := s.reload_eq results
  rw [hreload, refreshSuggestions_canvas, sync_diagram,
    classify_targets (s := s.beginLoad.1.loaded results.bindings) reached.wellFormed
      reached.someCanvas.current rfl]
  simp only [hdictated]
  rfl

/-- The diagram stays as it is exactly if all anonymous nodes have the classes that are dictated. -/
theorem reload_diagram_eq_iff (reached : Reachable allowed answered base sizes s)
    (same : s.ontology.facts.map Fact.iris = results.bindings.filterMap Fact.irisOf?) :
    (s.reload results).1.canvas.diagram = s.canvas.diagram ↔
      ∀ n ∈ s.canvas.diagram.nodes, n.kind.isInferable = true →
        n.AgreesWith (s.dictated? n.id) := by
  have hnode : ∀ n : Node Float,
      (if n.kind.isInferable then n.withClass (s.dictated? n.id) else n) = n ↔
        (n.kind.isInferable = true → n.AgreesWith (s.dictated? n.id)) := by
    intro n
    split
    · next hinferable => simp [hinferable, Node.withClass_eq_self_iff]
    · next hnot => simp [hnot]
  rw [reload_diagram reached same]
  constructor
  · intro h n hn
    have hnodes : s.canvas.diagram.nodes.map _ = s.canvas.diagram.nodes.map id :=
      (congrArg Diagram.nodes h).trans (List.map_id _).symm
    exact (hnode n).1 (List.map_inj_left.1 hnodes n hn)
  · intro h
    rw [List.map_congr_left fun n hn => (hnode n).2 (h n hn), List.map_id']

/-- After a reload the edges dictate what they dictated before. -/
theorem dictated?_reload (reached : Reachable allowed answered base sizes s)
    (same : s.ontology.facts.map Fact.iris = results.bindings.filterMap Fact.irisOf?)
    (id : NodeId) : (s.reload results).1.dictated? id = s.dictated? id := by
  have hbegun : Reachable allowed answered base sizes s.beginLoad.1 := .beginLoad reached
  have hclass : ∀ content, (s.reload results).1.ontology.classOf? content =
      s.ontology.classOf? content := by
    rw [ontology_reload]
    exact hbegun.classOf?_loaded same
  simp only [dictated?, hclass, reload_diagram reached same]

/-- Whatever gave them their classes: when the facts of a session are loaded once more, anonymous
    nodes get the classes that the edges at them dictate, and nothing else on the canvas changes.
    It stays as it is exactly if they have these classes already, as they have after a reload. -/
theorem Reachable.reload_follows_edges (reached : Reachable allowed answered base sizes s)
    (same : s.ontology.facts.map Fact.iris = results.bindings.filterMap Fact.irisOf?) :
    (∃ report, (s.reload results).2 = .ok report) ∧
      (s.reload results).1.canvas.diagram.edges = s.canvas.diagram.edges ∧
      (s.reload results).1.canvas.diagram.nodes = s.canvas.diagram.nodes.map (fun n =>
        if n.kind.isInferable then n.withClass (s.dictated? n.id) else n) ∧
      ((s.reload results).1.canvas.diagram = s.canvas.diagram ↔
        ∀ n ∈ s.canvas.diagram.nodes, n.kind.isInferable = true →
          n.AgreesWith (s.dictated? n.id)) ∧
      ((s.reload results).1.reload results).1.canvas.diagram =
        (s.reload results).1.canvas.diagram := by
  obtain ⟨report, hreload⟩ := s.reload_eq results
  have hdiagram := reload_diagram reached same
  refine ⟨⟨report, by rw [hreload]⟩, by rw [hdiagram], by rw [hdiagram],
    reload_diagram_eq_iff reached same, ?_⟩
  -- the second reload finds the classes that the first has given
  have hsame : (s.reload results).1.ontology.facts.map Fact.iris =
      results.bindings.filterMap Fact.irisOf? := by
    rw [ontology_reload]
    exact Ontology.iris_index _ _ _
  refine (reload_diagram_eq_iff (reached.reload results) hsame).2 fun n' hn' hinferable => ?_
  rw [dictated?_reload reached same]
  rw [hdiagram] at hn'
  obtain ⟨n, -, rfl⟩ := List.mem_map.1 hn'
  split
  · rw [Node.id_withClass]
    exact Node.agreesWith_withClass _
  · next hnot =>
    rw [if_neg hnot] at hinferable
    exact absurd hinferable hnot

end Reached

/-! ## A class that was chosen -/

/-- A session in which the property was suggested with either range, and accepted with the first. -/
def chosen : Session :=
  let loaded := ((Session.new "http://base/" defaultSizes).reload twoRanges).1
  let drawn := (loaded.edit fun c =>
    (c.run [.createNode ⟨0, 0⟩ .uri ":Person", .select (.node ⟨1⟩)], ())).1
  (drawn.acceptSuggestion 1).1

theorem reachable_chosen :
    Reachable (fun _ => True) (fun _ => True) "http://base/" defaultSizes chosen :=
  .acceptSuggestion (.edit (Reachable.new.reload twoRanges) _ (fun _ _ => trivial) rfl) 1

/-- The chosen range does not outlast the reload: both are on the canvas after it. -/
theorem reload_overrides_choice :
    Reachable (fun _ => True) (fun _ => True) "http://base/" defaultSizes chosen ∧
      chosen.ontology.facts.map Fact.iris = twoRanges.bindings.filterMap Fact.irisOf? ∧
      chosen.canvas.diagram.nodes.map (fun n => (n.kind, n.inferredClass)) =
        [(.uri, none), (.unboundVariable, some "Book")] ∧
      (chosen.reload twoRanges).1.canvas.diagram.nodes.map (fun n => (n.kind, n.inferredClass)) =
        [(.uri, none), (.amalgam, some "Book | Article")] ∧
      (chosen.reload twoRanges).1.canvas.diagram.nodes ≠ chosen.canvas.diagram.nodes := by
  have hbefore : chosen.canvas.diagram.nodes.map (fun n => (n.kind, n.inferredClass)) =
      [(.uri, none), (.unboundVariable, some "Book")] := rfl
  have hafter : (chosen.reload twoRanges).1.canvas.diagram.nodes.map
      (fun n => (n.kind, n.inferredClass)) = [(.uri, none), (.amalgam, some "Book | Article")] :=
    rfl
  refine ⟨reachable_chosen, rfl, hbefore, hafter, fun hsame => ?_⟩
  rw [hsame, hbefore] at hafter
  cases hafter

theorem reload_follows_edges_chosen :
    chosen.ontology.facts.map Fact.iris = twoRanges.bindings.filterMap Fact.irisOf? ∧
      chosen.dictated? ⟨2⟩ = some ("Book | Article", true) ∧
      (chosen.reload twoRanges).1.canvas.diagram.edges = chosen.canvas.diagram.edges ∧
      ((chosen.reload twoRanges).1.reload twoRanges).1.canvas.diagram =
        (chosen.reload twoRanges).1.canvas.diagram := by
  have hsame : chosen.ontology.facts.map Fact.iris =
      twoRanges.bindings.filterMap Fact.irisOf? := rfl
  obtain ⟨-, hedges, -, -, hagain⟩ := Reachable.reload_follows_edges reachable_chosen hsame
  exact ⟨hsame, rfl, hedges, hagain⟩

end Session

end QueryCanvas
