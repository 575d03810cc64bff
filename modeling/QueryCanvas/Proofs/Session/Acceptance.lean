/-
  QueryCanvas.Proofs.Session.Acceptance

  Accepting a suggestion works or leaves no trace.

  Placing a suggestion takes several operations on the canvas, each of which
  looks for an element. That none of them fails halfway rests on two things. The
  element of a suggestion exists (`Steady.current`), since a session drops
  suggestions together with their elements. And an identity that is handed out
  is new, so that each operation finds what the one before it has made.

  After the placement no edge is due for range inference: the new edge is
  remembered as it is, and a node that has been given an IRI or a literal is not
  anonymous any more. So catching up leaves the diagram as it was placed.
-/

import QueryCanvas.Proofs.Canvas.Layout
import QueryCanvas.Proofs.Canvas.Placement
import QueryCanvas.Proofs.Session.Inference
import QueryCanvas.Proofs.Session.Vocabulary

namespace QueryCanvas

/-! ## What is placed -/

@[simp] theorem Suggestion.element_refresh (x : Suggestion) (p : PrefixTable) :
    (x.refresh p).element = x.element := by
  cases x <;> rfl

/-- A diagram `d'` has, beside what is in `d`, one new anonymous node of the suggested class and one
    new complete edge that leads to it from the subject of the suggestion. -/
structure EdgeSuggestion.Placed (x : EdgeSuggestion) {α : Type} (d : Diagram α) (n : Node α)
    (e : Edge α) (d' : Diagram α) : Prop where
  nodes : d'.nodes = d.nodes ++ [n]
  edges : d'.edges = d.edges ++ [e]
  node_new : d.node? n.id = none
  edge_new : d.edge? e.id = none
  kind : n.kind = .unboundVariable
  content : n.content = Sparql.anonymous
  inferredClass : n.inferredClass = some x.range.label
  complete : e.complete = true
  subject : e.subject.node? = some x.subject
  object : e.object.node? = some n.id
  shows : e.content = x.property.qualifiedName

namespace NodeSuggestion

variable {α : Type} [Scalar α]

/-- A node as the suggested class, or as an empty literal of the suggested datatype. -/
def recast (x : NodeSuggestion) (n : Node α) (sizes : ShapeSizes α) : Node α :=
  if x.kind = .literal then
    ({ n with
        kind := .literal
        content := ""
        inferredClass := some x.cls.label } : Node α).reshaped sizes
  else
    ({ n with
        kind := .uri
        content := x.cls.qualifiedName
        inferredClass := none } : Node α).reshaped sizes

@[simp] theorem id_recast (x : NodeSuggestion) (n : Node α) (sizes : ShapeSizes α) :
    (x.recast n sizes).id = n.id := by
  unfold recast
  split <;> rfl

theorem isInferable_recast (x : NodeSuggestion) (n : Node α) (sizes : ShapeSizes α) :
    (x.recast n sizes).kind.isInferable = false := by
  unfold recast
  split <;> rfl

/-- In a diagram `d'` the node `object` is recast, edges at it may end at other points, and
    everything else is as in `d`. -/
structure Placed (x : NodeSuggestion) (sizes : ShapeSizes α) (d : Diagram α) (object : NodeId)
    (d' : Diagram α) : Prop where
  nodes : d'.nodes = d.nodes.map fun n => if n.id = object then x.recast n sizes else n
  edges : List.Forall₂ (Edge.Follows object) d.edges d'.edges

end NodeSuggestion

namespace Session

variable {s : Session}

/-! ## Placing an edge -/

/-- The node that comes with a suggested edge. -/
def suggestedNode (s : Session) (x : EdgeSuggestion) (subject : Node Float) : Node Float :=
  { s.canvas.freshNode
      (subject.position.offset s.canvas.sizes.suggestionOffset Scalar.zero)
      .unboundVariable Sparql.anonymous with
    inferredClass := some x.range.label }

/-- The suggested edge. -/
def suggestedEdge (s : Session) (x : EdgeSuggestion) (subject : Node Float) : Edge Float :=
  s.canvas.joiningEdge subject (s.suggestedNode x subject) x.property.qualifiedName

theorem placeEdge_eq (wf : s.canvas.WellFormed) {x : EdgeSuggestion} {subject : Node Float}
    (found : s.canvas.node? x.subject = some subject) :
    ∃ selected feed, s.placeEdge x = ({ s with
      canvas := { s.canvas.withNode (s.suggestedNode x subject) selected feed with
        diagram := ⟨s.canvas.diagram.nodes ++ [s.suggestedNode x subject],
          s.canvas.diagram.edges ++ [s.suggestedEdge x subject]⟩
        nextEdge := s.canvas.nextEdge + 1 }
      inferred := s.inferred.insert ⟨s.canvas.nextEdge⟩ x.property.qualifiedName },
      .ok (.edge ⟨s.canvas.nextNode⟩ ⟨s.canvas.nextEdge⟩)) := by
  obtain ⟨selected, feed, hclassed⟩ : ∃ selected feed,
      (s.canvas.createNode (subject.position.offset s.canvas.sizes.suggestionOffset Scalar.zero)
          .unboundVariable Sparql.anonymous).1.setClass ⟨s.canvas.nextNode⟩ (some x.range.label) =
        (s.canvas.withNode (s.suggestedNode x subject) selected feed, .ok ()) :=
    wf.setClass_createNode _ _ _ _
  -- both ends of the new edge are found
  have hsubject : subject.id = x.subject := (Diagram.mem_of_node? found).2
  have hstart : (s.canvas.withNode (s.suggestedNode x subject) selected feed).node? subject.id =
      some subject := by
    rw [← hsubject] at found
    exact (Diagram.node?_append_of_isSome (Option.isSome_of_mem found) _).trans found
  have hend : (s.canvas.withNode (s.suggestedNode x subject) selected feed).node?
      (s.suggestedNode x subject).id = some (s.suggestedNode x subject) :=
    wf.node?_withNode selected feed rfl
  obtain ⟨feed', hconnect⟩ := Canvas.connect_eq hstart hend x.property.qualifiedName
  refine ⟨selected, feed', ?_⟩
  have hid : (s.suggestedNode x subject).id = ⟨s.canvas.nextNode⟩ := rfl
  rw [hsubject, hid] at hconnect
  simp only [placeEdge, found, Canvas.createNode_id, hclassed, hconnect]
  rfl

theorem placed_suggestedEdge (wf : s.canvas.WellFormed) {x : EdgeSuggestion}
    {subject : Node Float} (found : s.canvas.node? x.subject = some subject) :
    x.Placed s.canvas.diagram (s.suggestedNode x subject) (s.suggestedEdge x subject)
      ⟨s.canvas.diagram.nodes ++ [s.suggestedNode x subject],
        s.canvas.diagram.edges ++ [s.suggestedEdge x subject]⟩ where
  nodes := rfl
  edges := rfl
  node_new := wf.node?_fresh
  edge_new := wf.edge?_fresh
  kind := rfl
  content := rfl
  inferredClass := rfl
  complete := rfl
  subject := congrArg some (Diagram.mem_of_node? found).2
  object := rfl
  shows := rfl

/-- The new edge is remembered, and the old ones are due for no new reason. -/
theorem settled_placeEdge (wf : s.canvas.WellFormed) (h : s.Settled) {x : EdgeSuggestion}
    {subject : Node Float} (found : s.canvas.node? x.subject = some subject) :
    (s.placeEdge x).1.Settled := by
  obtain ⟨selected, feed, hplaced⟩ := placeEdge_eq wf found
  rw [hplaced]
  refine h.of_due fun e he target htarget => ?_
  obtain ⟨hcomplete, hkind, hunseen, n, hobject, hfound, hinferable, -⟩ :=
    inferenceTarget?_eq_some_iff.1 htarget
  rcases List.mem_append.1 he with he | he
  · rw [Dict.get?_insert, if_neg (wf.edgeId_ne_fresh he).symm] at hunseen
    have hthere := wf.ends_exist e he n.id (Edge.touches_iff.2 (.inr hobject))
    have hfound : s.canvas.node? n.id = some n :=
      (Diagram.node?_append_of_isSome hthere _).symm.trans hfound
    exact ⟨e, he, _, inferenceTarget?_eq_some_iff.2
      ⟨hcomplete, hkind, hunseen, n, hobject, hfound, hinferable, rfl⟩⟩
  · obtain rfl := List.mem_singleton.1 he
    refine absurd ?_ hunseen
    rw [Dict.get?_insert]
    exact if_pos rfl

/-! ## Placing a node -/

theorem placeNode_eq (wf : s.canvas.WellFormed) {x : NodeSuggestion} {e : Edge Float}
    (found : s.canvas.edge? x.edge = some e) {object : NodeId}
    (ends : e.object.node? = some object) :
    ∃ feed, s.placeNode x = ({ s with
      canvas := { s.canvas with
        diagram := (s.canvas.diagram.modifyNode object
          fun n => x.recast n s.canvas.sizes).reanchor object
        feed := feed } }, .ok (.node object)) := by
  have hthere := wf.ends_exist e (Diagram.mem_of_edge? found).1 object
    (Edge.touches_iff.2 (.inr ends))
  obtain ⟨n, hn⟩ := Option.isSome_iff_exists.1 hthere
  by_cases hkind : x.kind = .literal
  · obtain ⟨feed, hassign⟩ := Canvas.assignNode_eq hn .literal "" (some x.cls.label)
    exact ⟨feed, by simp [placeNode, found, ends, hkind, hassign, NodeSuggestion.recast,
      Except.map, Except.mapError]⟩
  · obtain ⟨feed, hassign⟩ := Canvas.assignNode_eq hn .uri x.cls.qualifiedName none
    exact ⟨feed, by simp [placeNode, found, ends, hkind, hassign, NodeSuggestion.recast,
      Except.map, Except.mapError]⟩

theorem placed_recast (s : Session) (x : NodeSuggestion) (object : NodeId) :
    x.Placed s.canvas.sizes s.canvas.diagram object
      ((s.canvas.diagram.modifyNode object
        fun n => x.recast n s.canvas.sizes).reanchor object) where
  nodes := rfl
  edges := by
    refine List.forall₂_map_right_iff.2 (List.forall₂_same.2 fun e _ => ?_)
    exact Diagram.reanchoredEdge_follows _ object e

/-- A node with an IRI or a literal is not anonymous, so no edge has become due. -/
theorem settled_placeNode (wf : s.canvas.WellFormed) (h : s.Settled) {x : NodeSuggestion}
    {e : Edge Float} (found : s.canvas.edge? x.edge = some e) {object : NodeId}
    (ends : e.object.node? = some object) : (s.placeNode x).1.Settled := by
  obtain ⟨feed, hplaced⟩ := placeNode_eq wf found ends
  rw [hplaced]
  refine h.of_due fun e' he' target htarget => ?_
  obtain ⟨hcomplete, hkind, hunseen, n', hobject, hfound, hinferable, -⟩ :=
    inferenceTarget?_eq_some_iff.1 htarget
  obtain ⟨e, he, rfl⟩ := List.mem_map.1 he'
  obtain ⟨hid, -, hends, hcomplete'⟩ :=
    Edge.frame_eq_iff.1 (Diagram.frame_reanchoredEdge _ object e)
  obtain ⟨hkind', hcontent⟩ := Diagram.reanchoredEdge_shows _ object e
  rw [hcomplete'] at hcomplete
  rw [hkind'] at hkind
  rw [hid, hcontent] at hunseen
  rw [hends] at hobject
  -- the node at the end is another than the recast one, which is not anonymous
  have hkeeps : ∀ m : Node Float, (if m.id = object then x.recast m s.canvas.sizes else m).id =
      m.id := by
    intro m
    split <;> simp
  obtain ⟨m, hm, rfl⟩ := Option.map_eq_some_iff.1
    ((Diagram.node?_map s.canvas.diagram hkeeps _).symm.trans hfound)
  split at hinferable
  · rw [x.isInferable_recast] at hinferable
    cases hinferable
  · next hother =>
    rw [if_neg hother] at hobject hm
    exact ⟨e, he, _, inferenceTarget?_eq_some_iff.2
      ⟨hcomplete, hkind, hunseen, m, hobject, hm, hinferable, rfl⟩⟩

/-! ## Suggestions and their elements -/

/-- Suggestions for a selection are suggestions for the selected element. -/
theorem element_suggestFor {o : Ontology} {selection : Selection} {last : Nat} {x : Suggestion}
    (h : x ∈ (o.suggestFor selection last).2) : x.element = selection.element := by
  unfold Ontology.suggestFor at h
  split at h
  · next node kind helement _ =>
    obtain ⟨suggestion, hmem, rfl⟩ := List.mem_map.1 h
    unfold Ontology.suggestForNode at hmem
    split at hmem
    · simp at hmem
    · obtain ⟨index, f, -, rfl⟩ := Ontology.mem_numbered hmem
      exact helement.symm
  · next edge kind helement _ =>
    obtain ⟨suggestion, hmem, rfl⟩ := List.mem_map.1 h
    obtain ⟨index, f, -, rfl⟩ := Ontology.mem_numbered hmem
    exact helement.symm
  · simp at h

/-- The element of a suggestion exists if it can be described. -/
theorem isCurrent_eq (s : Session) (x : Suggestion) :
    s.isCurrent x = (s.canvas.diagram.describe? x.element).isSome := by
  cases x with
  | edge x => exact Option.isSome_map.symm
  | node x => exact Option.isSome_map.symm

/-- No edge is due, and the elements of all suggestions exist. -/
structure Steady (s : Session) : Prop where
  settled : s.Settled
  current : ∀ x ∈ s.suggestions, s.isCurrent x

theorem current_sync (s : Session) : ∀ x ∈ s.sync.suggestions, s.sync.isCurrent x :=
  fun _ hx => (List.mem_filter.1 hx).2

theorem steady_sync (wf : s.canvas.WellFormed) : s.sync.Steady :=
  ⟨settled_sync wf, s.current_sync⟩

namespace Steady

/-- With other suggestions, for elements that exist. -/
theorem withSuggestions (h : s.Steady) {s' : Session} (canvas : s'.canvas = s.canvas)
    (inferred : s'.inferred = s.inferred)
    (current : ∀ x ∈ s'.suggestions, (s.canvas.diagram.describe? x.element).isSome) :
    s'.Steady where
  settled := h.settled.congr (congrArg _ canvas) fun _ _ => congrArg (Dict.get? · _) inferred
  current x hx := by
    rw [isCurrent_eq, canvas]
    exact current x hx

theorem described (h : s.Steady) {x : Suggestion} (hx : x ∈ s.suggestions) :
    (s.canvas.diagram.describe? x.element).isSome := by
  rw [← isCurrent_eq]
  exact h.current x hx

theorem refreshSuggestions (h : s.Steady) : s.refreshSuggestions.Steady := by
  unfold Session.refreshSuggestions
  split
  · next selection hselection =>
    refine h.withSuggestions rfl rfl fun x hx => ?_
    -- the selection is what the selected element shows
    obtain ⟨element, -, hshown⟩ := Option.bind_eq_some_iff.1 hselection
    have helement : selection.element = element := Diagram.element_of_describe? hshown
    rw [element_suggestFor hx, helement, hshown]
    rfl
  · exact h.withSuggestions rfl rfl fun x hx => absurd hx List.not_mem_nil

theorem removeSuggestion (h : s.Steady) (index : Nat) : (s.removeSuggestion index).1.Steady := by
  rcases s.removeSuggestion_cases index with hremove | hremove
  · exact hremove.symm ▸ h
  · rw [hremove]
    exact h.withSuggestions rfl rfl fun x hx => h.described (List.mem_of_mem_filter hx)

theorem finishPrefixes (h : s.Steady) (answers : PrefixAnswers) :
    (s.finishPrefixes answers).1.Steady := by
  refine h.withSuggestions rfl rfl fun x hx => ?_
  obtain ⟨x', hx', rfl⟩ := List.mem_map.1 hx
  rw [Suggestion.element_refresh]
  exact h.described hx'

end Steady

/-! ## Accepting -/

/-- What accepting the suggestion with a number can come to. -/
inductive Acceptance (s : Session) (index : Nat) : Session × Except SessionError Accepted → Prop
  /-- No suggestion has the number. Nothing happens. -/
  | unknown (missing : s.suggestion? index = none) :
      Acceptance s index (s, .error (.suggestionNotFound index))
  /-- The edge to which a class was suggested has no object. Nothing happens. -/
  | incomplete {x : NodeSuggestion} {e : Edge Float} (found : s.suggestion? index = some (.node x))
      (there : s.canvas.edge? x.edge = some e) (drawn : e.object.node? = none) :
      Acceptance s index (s, .error (.incompleteEdge x.edge))
  /-- The object of the edge becomes what was suggested. -/
  | node {s' : Session} {x : NodeSuggestion} {e : Edge Float} {object : NodeId}
      (found : s.suggestion? index = some (.node x)) (there : s.canvas.edge? x.edge = some e)
      (ends : e.object.node? = some object)
      (placed : x.Placed s.canvas.sizes s.canvas.diagram object s'.canvas.diagram) :
      Acceptance s index (s', .ok (.node object))
  /-- The suggested edge is added, with a node at its end. -/
  | edge {s' : Session} {x : EdgeSuggestion} {n : Node Float} {e : Edge Float}
      (found : s.suggestion? index = some (.edge x))
      (placed : x.Placed s.canvas.diagram n e s'.canvas.diagram) :
      Acceptance s index (s', .ok (.edge n.id e.id))

/-- Once a suggestion is placed, the session drops it and catches up. -/
theorem Settled.drop (h : s.Settled) (index : Nat) :
    let dropped := { s with suggestions := s.suggestions.filter (·.index ≠ index) }
    dropped.sync.Steady ∧ dropped.sync.canvas.diagram = s.canvas.diagram := by
  intro dropped
  have hdropped : dropped.Settled := h.congr rfl fun _ _ => rfl
  exact ⟨⟨hdropped.sync, dropped.current_sync⟩, hdropped.sync_diagram⟩

/-- In a steady session nothing else can come of it, and the session stays steady. -/
theorem Steady.accept (h : s.Steady) (wf : s.canvas.WellFormed) (index : Nat) :
    Acceptance s index (s.acceptSuggestion index) ∧ (s.acceptSuggestion index).1.Steady := by
  cases hfound : s.suggestion? index with
  | none =>
    have hmissing : s.acceptSuggestion index = (s, .error (.suggestionNotFound index)) := by
      simp only [acceptSuggestion, hfound]
    rw [hmissing]
    exact ⟨.unknown hfound, h⟩
  | some x =>
    -- the element that the suggestion is for is still there
    have hshown := h.described (List.mem_of_find?_eq_some hfound)
    rw [acceptSuggestion_eq hfound]
    cases x with
    | edge x =>
      obtain ⟨subject, hsubject⟩ := Option.isSome_iff_exists.1 (Option.isSome_map.symm.trans hshown)
      have hsettled := settled_placeEdge wf h.settled hsubject
      obtain ⟨selected, feed, hplaced⟩ := placeEdge_eq wf hsubject
      rw [hplaced] at hsettled
      obtain ⟨hsteady, hdiagram⟩ := hsettled.drop index
      rw [place, hplaced]
      refine ⟨.edge (n := s.suggestedNode x subject) (e := s.suggestedEdge x subject) hfound ?_,
        hsteady⟩
      exact hdiagram.symm ▸ placed_suggestedEdge wf hsubject
    | node x =>
      obtain ⟨e, he⟩ := Option.isSome_iff_exists.1 (Option.isSome_map.symm.trans hshown)
      cases hends : e.object.node? with
      | none =>
        have hdrawn : s.placeNode x = (s, .error (.incompleteEdge x.edge)) := by
          have he : s.canvas.edge? x.edge = some e := he
          simp only [placeNode, he, hends]
        rw [place, hdrawn]
        exact ⟨.incomplete hfound he hends, h⟩
      | some object =>
        have hsettled := settled_placeNode wf h.settled he hends
        obtain ⟨feed, hplaced⟩ := placeNode_eq wf he hends
        rw [hplaced] at hsettled
        obtain ⟨hsteady, hdiagram⟩ := hsettled.drop index
        rw [place, hplaced]
        refine ⟨.node hfound he hends ?_, hsteady⟩
        exact hdiagram.symm ▸ s.placed_recast x object

/-! ## Every session -/

variable {allowed : Operation Float → Prop} {answered : String → Prop} {base : String}
  {sizes : ShapeSizes Float}

theorem Reachable.steady (reached : Reachable allowed answered base sizes s) : s.Steady := by
  induction reached with
  | new => exact ⟨fun e he => absurd he List.not_mem_nil, fun x hx => absurd hx List.not_mem_nil⟩
  | @edit s _ before change operations _ performs _ =>
    have wf : (change s.canvas).1.WellFormed := performs ▸ before.wellFormed.run operations
    exact steady_sync wf
  | beginLoad _ ih => exact ih.withSuggestions rfl rfl fun x hx => ih.described hx
  | @finishLoad s before ticket fetched ih =>
    rcases s.finishLoad_cases ticket fetched with h | ⟨bindings, h⟩
    · exact h.symm ▸ ih
    · rw [h]
      have wf : (s.loaded bindings).canvas.WellFormed := before.wellFormed
      exact (steady_sync wf).refreshSuggestions
  | beginPrefixes _ ih => exact ih.withSuggestions rfl rfl fun x hx => ih.described hx
  | finishPrefixes _ _ ih => exact ih.finishPrefixes _
  | refreshSuggestions _ ih => exact ih.refreshSuggestions
  | removeSuggestion _ index ih => exact ih.removeSuggestion index
  | acceptSuggestion before index ih => exact (ih.accept before.wellFormed index).2
  | @clear s before _ =>
    have wf : s.canvas.clear.WellFormed := before.wellFormed.step (Canvas.step_clear _)
    exact (steady_sync wf).withSuggestions rfl rfl fun x hx => absurd hx List.not_mem_nil

/-- Accepting a suggestion works or leaves no trace, in every session and for every number. The
    elements of all suggestions exist. So there are two errors, that no suggestion has the number
    and that the edge has no object yet, and either leaves the whole session as it was; otherwise
    exactly what was suggested is placed, and nothing else on the canvas changes. -/
theorem Reachable.accepts_or_leaves_no_trace
    (reached : Reachable allowed answered base sizes s) (index : Nat) :
    (∀ x ∈ s.suggestions, s.isCurrent x) ∧
      Acceptance s index (s.acceptSuggestion index) ∧
      (∀ error, (s.acceptSuggestion index).2 = .error error →
        (s.acceptSuggestion index).1 = s ∧
          (error = .suggestionNotFound index ∧ s.suggestion? index = none ∨
            ∃ x e, s.suggestion? index = some (.node x) ∧ s.canvas.edge? x.edge = some e ∧
              e.object.node? = none ∧ error = .incompleteEdge x.edge)) := by
  have hsteady := reached.steady
  obtain ⟨haccept, -⟩ := hsteady.accept reached.wellFormed index
  refine ⟨hsteady.current, haccept, fun error herror => ?_⟩
  generalize s.acceptSuggestion index = outcome at haccept herror
  cases haccept with
  | unknown missing =>
    cases herror
    exact ⟨rfl, .inl ⟨rfl, missing⟩⟩
  | incomplete found there drawn =>
    cases herror
    exact ⟨rfl, .inr ⟨_, _, found, there, drawn, rfl⟩⟩
  | node found there ends placed => cases herror
  | edge found placed => cases herror

/-- A session in which an edge is being drawn and a class is suggested for its end. -/
def drawing : Session :=
  let begun := (Session.new "http://base/" defaultSizes).beginLoad
  let loaded := (begun.1.finishLoad begun.2
    (.ok ⟨[], [Fact.solution "http://base/knows" "http://base/Person" "http://base/Person"]⟩)).1
  (loaded.edit fun c => (c.run [.createNode ⟨0, 0⟩ .uri ":Person",
    .startEdge ⟨1⟩ ":knows", .select (.edge ⟨1⟩)], ())).1

theorem reachable_drawing :
    Reachable (fun _ => True) (fun _ => True) "http://base/" defaultSizes drawing :=
  .edit (.finishLoad (.beginLoad .new) _ _) _ (fun _ _ => trivial) rfl

theorem accepts_or_leaves_no_trace_drawing :
    (drawing.acceptSuggestion 2).2 = .error (.incompleteEdge ⟨1⟩) ∧
      (drawing.acceptSuggestion 2).1 = drawing ∧
      (raced.acceptSuggestion 1).2 = .ok (.edge ⟨2⟩ ⟨1⟩) ∧
      Acceptance raced 1 (raced.acceptSuggestion 1) := by
  obtain ⟨-, -, hrefused⟩ := Reachable.accepts_or_leaves_no_trace reachable_drawing 2
  obtain ⟨-, haccepted, -⟩ := Reachable.accepts_or_leaves_no_trace reachable_raced 1
  exact ⟨rfl, (hrefused _ rfl).1, rfl, haccepted⟩

end Session

end QueryCanvas
