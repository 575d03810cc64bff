/-
  QueryCanvas.Proofs.Session.Inference

  What range inference does to a session. The edges that are due decide the
  classes of the nodes at their ends, and where several edges end at one node
  the last of them has the final word (`verdict?`). Nothing else about the
  diagram changes.

  Afterwards no edge is due (`Settled`), so that inferring again changes
  nothing. Every session that has caught up with its canvas is settled.
-/

import Mathlib.Data.List.Induction
import QueryCanvas.Proofs.Canvas.Structure
import QueryCanvas.Proofs.Ontology.Classes
import QueryCanvas.Proofs.Session.Reachable

namespace QueryCanvas

/-! ## Classes -/

/-- The class on which the last edge decides among those that are due and end at a node. -/
def Ontology.verdict? (o : Ontology) (targets : List (EdgeId × String × NodeId)) (node : NodeId) :
    Option (String × Bool) :=
  (targets.filterMap fun target =>
    if target.2.2 = node then o.classOf? target.2.1 else none).getLast?

theorem Ontology.verdict?_concat (o : Ontology) (targets : List (EdgeId × String × NodeId))
    (target : EdgeId × String × NodeId) (node : NodeId) :
    o.verdict? (targets ++ [target]) node =
      if target.2.2 = node then (o.classOf? target.2.1).or (o.verdict? targets node)
      else o.verdict? targets node := by
  rw [verdict?, List.filterMap_append, List.getLast?_append, verdict?]
  by_cases hnode : target.2.2 = node
  · cases hclass : o.classOf? target.2.1 <;> simp [hnode, hclass]
  · simp [hnode]

theorem Ontology.exists_target_of_verdict? {o : Ontology}
    {targets : List (EdgeId × String × NodeId)} {node : NodeId} {cls : String × Bool}
    (h : o.verdict? targets node = some cls) :
    ∃ target ∈ targets, target.2.2 = node ∧ o.classOf? target.2.1 = some cls := by
  obtain ⟨target, hmem, hclass⟩ := List.mem_filterMap.1 (List.mem_of_getLast? h)
  split at hclass
  · exact ⟨target, hmem, ‹_›, hclass⟩
  · cases hclass

namespace Node

variable {α : Type} [Scalar α] {n : Node α} {sizes : ShapeSizes α}

/-- The node with an inferred class. It is an amalgam exactly if several ranges were merged. -/
def classified (n : Node α) (cls : String × Bool) (sizes : ShapeSizes α) : Node α :=
  ({ n with
      inferredClass := some cls.1
      kind := if cls.2 then .amalgam else .unboundVariable } : Node α).reshaped sizes

/-- The node with the class on which was decided, if there was a decision. -/
def decided (n : Node α) (verdict : Option (String × Bool)) (sizes : ShapeSizes α) : Node α :=
  match verdict with
  | some cls => n.classified cls sizes
  | none => n

@[simp] theorem id_decided (verdict : Option (String × Bool)) :
    (n.decided verdict sizes).id = n.id := by
  cases verdict <;> rfl

@[simp] theorem content_decided (n : Node α) (verdict : Option (String × Bool)) :
    (n.decided verdict sizes).content = n.content := by
  cases verdict <;> rfl

theorem isInferable_classified (cls : String × Bool) :
    (n.classified cls sizes).kind.isInferable := by
  show NodeKind.isInferable (if cls.2 then .amalgam else .unboundVariable) = true
  split <;> rfl

theorem isInferable_decided (h : n.kind.isInferable) (verdict : Option (String × Bool)) :
    (n.decided verdict sizes).kind.isInferable := by
  cases verdict with
  | some cls => exact isInferable_classified cls
  | none => exact h

/-- A later decision leaves nothing of an earlier one. -/
theorem decided_decided (earlier later : Option (String × Bool)) :
    (n.decided earlier sizes).decided later sizes = n.decided (later.or earlier) sizes := by
  cases earlier <;> cases later <;> rfl

end Node

namespace Session

/-! ## Edges that are due -/

/-- An edge is due if it is complete, shows a property for which no range was inferred yet, and
    ends at an anonymous node. -/
theorem inferenceTarget?_eq_some_iff {s : Session} {e : Edge Float}
    {target : EdgeId × String × NodeId} :
    s.inferenceTarget? e = some target ↔
      e.complete = true ∧ e.kind = .boundProperty ∧ s.inferred.get? e.id ≠ some e.content ∧
        ∃ n, e.object.node? = some n.id ∧ s.canvas.node? n.id = some n ∧
          n.kind.isInferable = true ∧ target = (e.id, e.content, n.id) := by
  constructor
  · intro h
    unfold inferenceTarget? at h
    split at h
    · next hdue =>
      simp only [Bool.and_eq_true, decide_eq_true_eq] at hdue
      split at h
      · cases h
      · next object hobject =>
        split at h
        · cases h
        · next n hnode =>
          split at h
          · next hinferable =>
            obtain rfl : n.id = object := (Diagram.mem_of_node? hnode).2
            exact ⟨hdue.1.1, hdue.1.2, hdue.2, n, hobject, hnode, hinferable,
              (Option.some.inj h).symm⟩
          · cases h
    · cases h
  · rintro ⟨hcomplete, hkind, hunseen, n, hobject, hnode, hinferable, rfl⟩
    simp [inferenceTarget?, hcomplete, hkind, hunseen, hobject, hnode, hinferable]

/-- The edge is due, and ends at this node. -/
def DueFor (s : Session) (e : Edge Float) (n : Node Float) : Prop :=
  e.complete = true ∧ e.kind = .boundProperty ∧ s.inferred.get? e.id ≠ some e.content ∧
    e.object.node? = some n.id ∧ n.kind.isInferable = true

instance (s : Session) (e : Edge Float) (n : Node Float) : Decidable (s.DueFor e n) :=
  inferInstanceAs (Decidable (_ ∧ _ ∧ _ ∧ _ ∧ _))

/-- The edges that are due for a node decide on the class of this node and of no other. -/
theorem class_of_target {s : Session} {n : Node Float} (found : s.canvas.node? n.id = some n)
    (e : Edge Float) :
    ((s.inferenceTarget? e).bind fun target =>
        if target.2.2 = n.id then s.ontology.classOf? target.2.1 else none) =
      if s.DueFor e n then s.ontology.classOf? e.content else none := by
  by_cases hdue : s.DueFor e n
  · obtain ⟨hcomplete, hkind, hunseen, hobject, hinferable⟩ := hdue
    rw [if_pos ⟨hcomplete, hkind, hunseen, hobject, hinferable⟩, inferenceTarget?_eq_some_iff.2
      ⟨hcomplete, hkind, hunseen, n, hobject, found, hinferable, rfl⟩]
    simp
  · rw [if_neg hdue]
    cases htarget : s.inferenceTarget? e with
    | none => rfl
    | some target =>
      obtain ⟨hcomplete, hkind, hunseen, m, hobject, hm, hinferable, rfl⟩ :=
        inferenceTarget?_eq_some_iff.1 htarget
      by_cases hid : m.id = n.id
      · obtain rfl : m = n := by
          rw [hid, found] at hm
          exact (Option.some.inj hm).symm
        exact absurd ⟨hcomplete, hkind, hunseen, hobject, hinferable⟩ hdue
      · simp [hid]

/-! ## Deciding on classes -/

/-- An edge that is due decides on the class of the node at its end. -/
theorem inferRange_eq {s : Session} {target : EdgeId × String × NodeId} {n : Node Float}
    (found : s.canvas.node? target.2.2 = some n) (inferable : n.kind.isInferable) :
    ∃ feed, s.inferRange target = { s with
      canvas := { s.canvas with
        diagram := s.canvas.diagram.modifyNode target.2.2 fun n =>
          n.decided (s.ontology.classOf? target.2.1) s.canvas.sizes
        feed := feed }
      inferred := s.inferred.insert target.1 target.2.1 } := by
  cases hlabel : (RangeInference.infer target.2.1 s.ontology).classLabel? with
  | none =>
    refine ⟨s.canvas.feed, ?_⟩
    simp [inferRange, hlabel, Ontology.classOf?, RangeInference.class?, Node.decided,
      Diagram.modifyNode]
  | some label =>
    refine ⟨(s.inferRange target).canvas.feed, ?_⟩
    simp only [inferRange, hlabel, Ontology.classOf?, RangeInference.class?, Canvas.inferClass,
      found, if_pos inferable]
    rfl

/-- The diagram with the classes on which edges that are due decide. -/
def classify (s : Session) (targets : List (EdgeId × String × NodeId)) : Diagram Float :=
  { s.canvas.diagram with
    nodes := s.canvas.diagram.nodes.map fun n =>
      n.decided (s.ontology.verdict? targets n.id) s.canvas.sizes }

theorem node?_classify (s : Session) (targets : List (EdgeId × String × NodeId)) (id : NodeId) :
    (s.classify targets).node? id = (s.canvas.node? id).map fun n =>
      n.decided (s.ontology.verdict? targets n.id) s.canvas.sizes :=
  Diagram.node?_map _ (fun n => n.id_decided _) id

theorem foldl_inferRange_eq {s : Session} {targets : List (EdgeId × String × NodeId)}
    (due : ∀ target ∈ targets, ∃ n, s.canvas.node? target.2.2 = some n ∧ n.kind.isInferable) :
    ∃ feed, targets.foldl inferRange s = { s with
      canvas := { s.canvas with diagram := s.classify targets, feed := feed }
      inferred := (targets.map fun target => (target.1, target.2.1)).foldl
        (fun d e => d.insert e.1 e.2) s.inferred } := by
  induction targets using List.reverseRecOn with
  | nil =>
    refine ⟨s.canvas.feed, ?_⟩
    simp [classify, Ontology.verdict?, Node.decided]
  | append_singleton targets target ih =>
    obtain ⟨feed, ih⟩ := ih fun target h => due target (List.mem_append_left _ h)
    obtain ⟨n, hfound, hinferable⟩ := due target (by simp)
    -- the node at the end may have been given a class already, and is still anonymous
    have hfound' : (targets.foldl inferRange s).canvas.node? target.2.2 =
        some (n.decided (s.ontology.verdict? targets n.id) s.canvas.sizes) := by
      rw [ih]
      exact (s.node?_classify targets _).trans (by rw [hfound]; rfl)
    obtain ⟨feed', hlast⟩ := inferRange_eq hfound' (n.isInferable_decided hinferable _)
    refine ⟨feed', ?_⟩
    rw [List.foldl_concat, hlast, ih]
    have hnode : ∀ m : Node Float, (if m.id = target.2.2 then
        (m.decided (s.ontology.verdict? targets m.id) s.canvas.sizes).decided
          (s.ontology.classOf? target.2.1) s.canvas.sizes
        else m.decided (s.ontology.verdict? targets m.id) s.canvas.sizes) =
          m.decided (s.ontology.verdict? (targets ++ [target]) m.id) s.canvas.sizes := by
      intro m
      rw [Ontology.verdict?_concat, Node.decided_decided]
      rcases eq_or_ne m.id target.2.2 with hm | hm
      · simp [hm]
      · simp [hm, hm.symm]
    simp [classify, Diagram.modifyNode, Function.comp_def, hnode]

/-- The edges of a session that are due. -/
def targets (s : Session) : List (EdgeId × String × NodeId) :=
  s.canvas.diagram.edges.filterMap s.inferenceTarget?

/-- Of the edges that are due for a node, the last with a known class decides. -/
theorem verdict?_targets {s : Session} {n : Node Float} (found : s.canvas.node? n.id = some n) :
    s.ontology.verdict? s.targets n.id = (s.canvas.diagram.edges.filterMap fun e =>
      if s.DueFor e n then s.ontology.classOf? e.content else none).getLast? := by
  rw [Ontology.verdict?, targets, List.filterMap_filterMap]
  simp only [class_of_target found]

theorem found_of_mem_targets {s : Session} {target : EdgeId × String × NodeId}
    (h : target ∈ s.targets) :
    ∃ n, s.canvas.node? target.2.2 = some n ∧ n.kind.isInferable := by
  obtain ⟨e, -, htarget⟩ := List.mem_filterMap.1 h
  obtain ⟨-, -, -, n, -, hfound, hinferable, rfl⟩ := inferenceTarget?_eq_some_iff.1 htarget
  exact ⟨n, hfound, hinferable⟩

/-- What range inference comes to. -/
theorem inferRanges_eq (s : Session) :
    ∃ feed, s.inferRanges = { s with
      canvas := { s.canvas with diagram := s.classify s.targets, feed := feed }
      inferred := (s.targets.map fun target => (target.1, target.2.1)).foldl
        (fun d e => d.insert e.1 e.2) s.inferred } :=
  foldl_inferRange_eq fun _ => found_of_mem_targets

/-! ## Settled sessions -/

/-- No edge is due. -/
def Settled (s : Session) : Prop := ∀ e ∈ s.canvas.diagram.edges, s.inferenceTarget? e = none

theorem Settled.inferRanges_eq {s : Session} (h : s.Settled) : s.inferRanges = s := by
  have hnone : s.canvas.diagram.edges.filterMap s.inferenceTarget? = [] :=
    List.filterMap_eq_nil_iff.2 h
  rw [inferRanges, hnone, List.foldl_nil]

/-- A session is settled if whatever is due in it was due in a settled session. -/
theorem Settled.of_due {s s' : Session} (h : s.Settled)
    (before : ∀ e' ∈ s'.canvas.diagram.edges, ∀ target', s'.inferenceTarget? e' = some target' →
      ∃ e ∈ s.canvas.diagram.edges, ∃ target, s.inferenceTarget? e = some target) :
    s'.Settled := by
  intro e' he'
  by_contra hdue
  obtain ⟨target', htarget'⟩ := Option.ne_none_iff_exists'.1 hdue
  obtain ⟨e, he, target, htarget⟩ := before e' he' target' htarget'
  rw [h e he] at htarget
  cases htarget

/-- Whether edges are due depends on the diagram and on what was inferred for its edges. -/
theorem Settled.congr {s s' : Session} (h : s.Settled)
    (diagram : s'.canvas.diagram = s.canvas.diagram)
    (inferred : ∀ e ∈ s.canvas.diagram.edges, s'.inferred.get? e.id = s.inferred.get? e.id) :
    s'.Settled := by
  intro e he
  rw [diagram] at he
  rw [← h e he]
  simp only [inferenceTarget?, inferred e he, Canvas.node?, diagram]

/-- Only nodes that were anonymous before are after range inference. -/
theorem isInferable_of_classify {s : Session} {n : Node Float}
    (hfound : s.canvas.node? n.id = some n)
    (h : (n.decided (s.ontology.verdict? s.targets n.id) s.canvas.sizes).kind.isInferable) :
    n.kind.isInferable := by
  cases hverdict : s.ontology.verdict? s.targets n.id with
  | none => simpa [hverdict, Node.decided] using h
  | some cls =>
    obtain ⟨target, hmem, hnode, -⟩ := Ontology.exists_target_of_verdict? hverdict
    obtain ⟨m, hm, hinferable⟩ := found_of_mem_targets hmem
    rw [hnode, hfound] at hm
    exact Option.some.inj hm ▸ hinferable

/-- What an edge showed when its range was inferred is remembered. -/
theorem settled_inferRanges {s : Session} (wf : s.canvas.WellFormed) : s.inferRanges.Settled := by
  obtain ⟨feed, hinfer⟩ := s.inferRanges_eq
  intro e he
  rw [hinfer] at he
  by_contra hdue
  obtain ⟨target, htarget⟩ := Option.ne_none_iff_exists'.1 hdue
  obtain ⟨hcomplete, hkind, hunseen, n', hobject, hfound, hinferable, -⟩ :=
    inferenceTarget?_eq_some_iff.1 htarget
  rw [hinfer] at hunseen hfound
  -- the node at the end was there before, and was anonymous before
  obtain ⟨n, hn, rfl⟩ := Option.map_eq_some_iff.1 ((s.node?_classify _ _).symm.trans hfound)
  rw [Node.id_decided] at hobject hn
  have hinferable' := isInferable_of_classify hn hinferable
  -- so the edge was due, or its range had been inferred
  have hremembered : s.inferred.get? e.id = some e.content ∨
      e.id ∈ (s.targets.map fun target => (target.1, target.2.1)).map Prod.fst := by
    by_cases hseen : s.inferred.get? e.id = some e.content
    · exact .inl hseen
    · right
      have hbefore : s.inferenceTarget? e = some (e.id, e.content, n.id) :=
        inferenceTarget?_eq_some_iff.2
          ⟨hcomplete, hkind, hseen, n, hobject, hn, hinferable', rfl⟩
      rw [List.map_map]
      exact List.mem_map.2 ⟨_, List.mem_filterMap.2 ⟨e, he, hbefore⟩, rfl⟩
  -- and whatever was inferred for it was inferred for what it shows now
  refine hunseen (Dict.get?_foldl_insert ?_ hremembered)
  intro entry hentry hid
  obtain ⟨target, hmem, rfl⟩ := List.mem_map.1 hentry
  obtain ⟨e', he', htarget'⟩ := List.mem_filterMap.1 hmem
  obtain ⟨-, -, -, m, -, -, -, rfl⟩ := inferenceTarget?_eq_some_iff.1 htarget'
  rw [wf.edge_unique he' he hid]

/-! ## Catching up -/

@[simp] theorem handleEvent_inferred (s : Session) (event : Event Float) :
    (s.handleEvent event).inferred = s.inferred := by
  cases event with
  | selectionChanged selection =>
    simp only [handleEvent]
    split <;> rfl
  | diagramChanged diagram => rfl
  | selectionCleared => rfl

@[simp] theorem readEvents_inferred (s : Session) : s.readEvents.inferred = s.inferred := by
  refine List.foldlRecOn (motive := fun s' : Session => s'.inferred = s.inferred)
    s.canvas.takeEvents.1 handleEvent rfl ?_
  intro s' hs' event _
  rw [handleEvent_inferred, hs']

/-- Of all that catching up does, only range inference changes the diagram. -/
theorem sync_diagram (s : Session) : s.sync.canvas.diagram = s.classify s.targets := by
  obtain ⟨feed, hinfer⟩ := s.inferRanges_eq
  show s.inferRanges.readEvents.canvas.diagram = _
  rw [readEvents_canvas, hinfer]
  rfl

/-- Reading events and dropping what refers to removed elements makes no edge due. -/
theorem Settled.pruned {s : Session} (h : s.Settled) : s.readEvents.prune.Settled := by
  refine h.congr ?_ ?_
  · show s.readEvents.canvas.diagram = _
    rw [readEvents_canvas]
    rfl
  · intro e he
    have hexists : (s.readEvents.canvas.edge? e.id).isSome := by
      rw [readEvents_canvas]
      exact Diagram.isSome_edge?_iff.2 (List.mem_map_of_mem he)
    show (s.readEvents.inferred.filterKeys _).get? e.id = _
    rw [Dict.get?_filterKeys, if_pos hexists, readEvents_inferred]

theorem settled_sync {s : Session} (wf : s.canvas.WellFormed) : s.sync.Settled :=
  (settled_inferRanges wf).pruned

theorem Settled.sync {s : Session} (h : s.Settled) : s.sync.Settled := by
  rw [Session.sync, h.inferRanges_eq]
  exact h.pruned

/-- A settled session keeps its diagram when it catches up. -/
theorem Settled.sync_diagram {s : Session} (h : s.Settled) :
    s.sync.canvas.diagram = s.canvas.diagram := by
  show s.inferRanges.readEvents.canvas.diagram = _
  rw [h.inferRanges_eq, readEvents_canvas]
  rfl

section Reached

variable {allowed : Operation Float → Prop} {answered : String → Prop} {base : String}
  {sizes : ShapeSizes Float} {s : Session}

/-- Operations lead to the canvas of a session, whichever are allowed. -/
theorem Reachable.someCanvas (reached : Reachable allowed answered base sizes s) :
    Canvas.Reachable (fun _ => True) sizes s.canvas := by
  have hany : Reachable (fun _ => True) answered base sizes s :=
    reached.mono (fun _ _ => trivial) fun _ h => h
  exact hany.canvas fun _ _ => trivial

theorem Reachable.wellFormed (reached : Reachable allowed answered base sizes s) :
    s.canvas.WellFormed := reached.someCanvas.wellFormed

end Reached

/-- An answer of the triple store in which a property has two ranges. -/
def twoRanges : Results :=
  ⟨[], [Fact.solution "http://base/wrote" "http://base/Person" "http://base/Book",
    Fact.solution "http://base/wrote" "http://base/Person" "http://base/Article"]⟩

end Session

end QueryCanvas
