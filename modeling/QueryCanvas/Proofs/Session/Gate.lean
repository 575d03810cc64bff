/-
  QueryCanvas.Proofs.Session.Gate

  Changing what elements show never looks for suggestions again.

  The gate opens only for another element than the one that it remembers. With
  the feed read it remembers the selected element, if there is one
  (`Gate.Remembers`): an operation that selects tells so, and no operation makes
  a selection without telling. An operation that changes contents tells of the
  selected element at most, and takes no element away that a suggestion is for
  (`Canvas.Extends`). The classes that are inferred afterwards do neither.
-/

import QueryCanvas.Proofs.Canvas.Locality
import QueryCanvas.Proofs.Session.CaughtUp
import QueryCanvas.Proofs.Session.Reload

namespace QueryCanvas

/-! ## Operations on contents -/

/-- The operations that draw, change what elements show, mark them, or move them. -/
def Operation.IsContent {α : Type} : Operation α → Prop
  | .updateNode _ _ | .updateEdge _ _ | .assignNode _ _ _ _ | .moveNode _ _ | .setOptional _ _
  | .followPointer _ | .startEdge _ _ | .completeEdge _ | .connect _ _ _ => True
  | _ => False

namespace Canvas

variable {α : Type} [Scalar α] {c c' : Canvas α} {operation : Operation α}
  {news : List (Event α)}

/-- Operations on contents select nothing and remove nothing. -/
theorem extends_of_content (c : Canvas α) (content : operation.IsContent) :
    Extends c (c.perform operation).1 := by
  have hselects : ¬ operation.Selects := by
    cases operation <;> first | exact content.elim | exact id
  have hremoves : ¬ operation.Removes := by
    cases operation <;> first | exact content.elim | exact id
  exact c.extends_perform hselects hremoves

/-- Neither does inferring a class. -/
theorem extends_inferClass (c : Canvas α) (id : NodeId) (label : String) (merged : Bool) :
    Extends c (c.perform (.inferClass id label merged)).1 :=
  c.extends_perform not_false not_false

/-! ## What is told of the selection -/

omit [Scalar α] in
/-- A selection that is told of is that of the selected element. -/
theorem Told.selected (told : Told c operation c' news) {shown : Selection}
    (mem : .selectionChanged shown ∈ news) : c'.selected = some shown.element := by
  cases told with
  | selection diagram shows =>
    cases List.mem_singleton.1 mem
    exact selected_of_selection? shows
  | diagramThenSelection shows =>
    simp only [List.mem_cons, reduceCtorEq, Event.selectionChanged.injEq, List.not_mem_nil,
      or_false, false_or] at mem
    exact selected_of_selection? (mem ▸ shows)
  | _ => simp at mem

end Canvas

/-! ## What the gate remembers -/

namespace Gate

variable {α : Type}

/-- What is remembered after an event. -/
def heed (g : Gate) : Event α → Gate
  | .selectionChanged selection => ⟨some selection⟩
  | .diagramChanged _ | .selectionCleared => g

/-- The gate remembers this element. -/
def Knows (g : Gate) (element : ElementRef) : Prop :=
  g.previous.map Selection.element = some element

/-- The gate stays closed for the element that it remembers. -/
theorem Knows.closed {g : Gate} {selection : Selection} (h : g.Knows selection.element) :
    g.opensFor selection = false := by
  obtain ⟨seen, hseen, helement⟩ := Option.map_eq_some_iff.1 h
  simp [opensFor, hseen, helement]

/-- With the feed read, the gate remembers the element that is selected, if there is one. -/
structure Remembers (g : Gate) (c : Canvas α) : Prop where
  wellFormed : c.WellFormed
  subscribed : c.feed.isSome
  knows : ∀ element, c.selected = some element → (c.takeEvents.1.foldl heed g).Knows element

variable {g : Gate} {c c' : Canvas α}

/-- What is told of an operation leads from one selected element to the other. -/
theorem knows_of_told [Scalar α] {operation : Operation α} {news : List (Event α)}
    (told : Canvas.Told c operation (c.perform operation).1 news)
    (wf : (c.perform operation).1.WellFormed)
    (knows : ∀ element, c.selected = some element → g.Knows element) :
    ∀ element, (c.perform operation).1.selected = some element →
      (news.foldl heed g).Knows element := by
  intro element hselected
  obtain ⟨shown, hshown, rfl⟩ := wf.exists_selection? hselected
  cases told with
  | nothing diagram shows => exact knows _ (Canvas.selected_of_selection? (shows ▸ hshown))
  | diagram shows => exact knows _ (Canvas.selected_of_selection? (shows ▸ hshown))
  | selection diagram shows =>
    rw [hshown] at shows
    cases shows
    rfl
  | diagramThenSelection shows =>
    rw [hshown] at shows
    cases shows
    rfl
  | cleared diagram shows =>
    rw [hshown] at shows
    cases shows
  | clearedThenDiagram shows =>
    rw [hshown] at shows
    cases shows
  -- the kind of the selected node has changed, and the node is the same
  | missed misses shows =>
    cases misses with
    | inferClass label merged found inferable selected differs =>
      rw [(Canvas.extends_inferClass c _ label merged).selected] at hselected
      exact knows _ hselected

namespace Remembers

theorem perform [Scalar α] (h : g.Remembers c) (operation : Operation α) :
    g.Remembers (c.perform operation).1 := by
  obtain ⟨pending, hpending⟩ := Option.isSome_iff_exists.1 h.subscribed
  obtain ⟨news, hfeed, told⟩ := Canvas.tells_perform h.wellFormed operation
  have wf : (c.perform operation).1.WellFormed :=
    h.wellFormed.step (Canvas.step_perform c operation)
  have hknows := h.knows
  rw [Canvas.takeEvents, hpending] at hknows
  rw [hpending] at hfeed
  refine ⟨wf, by rw [hfeed]; rfl, ?_⟩
  rw [Canvas.takeEvents, hfeed]
  show ∀ element, _ → ((pending ++ news).foldl heed g).Knows element
  rw [List.foldl_append]
  exact knows_of_told told wf hknows

theorem takeEvents (h : g.Remembers c) :
    (c.takeEvents.1.foldl heed g).Remembers c.takeEvents.2 := by
  obtain ⟨pending, hpending⟩ := Option.isSome_iff_exists.1 h.subscribed
  refine ⟨h.wellFormed.of_sameFrame (.refl _) _, ?_, ?_⟩
  · show (c.feed.map fun _ => []).isSome
    rw [Option.isSome_map]
    exact h.subscribed
  · intro element hselected
    rw [Canvas.takeEvents_takeEvents]
    exact h.knows element hselected

end Remembers

end Gate

/-! ## The gate of a session -/

namespace Session

variable {s : Session}

theorem handleEvent_gate (s : Session) (event : Event Float) :
    (s.handleEvent event).gate = s.gate.heed event := by
  cases event with
  | selectionChanged selection =>
    simp only [handleEvent]
    split <;> rfl
  | diagramChanged diagram => rfl
  | selectionCleared => rfl

theorem foldl_handleEvent_gate (events : List (Event Float)) (s : Session) :
    (events.foldl handleEvent s).gate = events.foldl Gate.heed s.gate := by
  induction events generalizing s with
  | nil => rfl
  | cons event rest ih => rw [List.foldl_cons, ih, handleEvent_gate, List.foldl_cons]

theorem readEvents_gate (s : Session) :
    s.readEvents.gate = s.canvas.takeEvents.1.foldl Gate.heed s.gate :=
  foldl_handleEvent_gate _ _

/-- Inferring ranges leaves everything but the canvas and what was inferred as it is. -/
theorem inferRanges_rest (s : Session) :
    s.inferRanges.gate = s.gate ∧ s.inferRanges.suggestions = s.suggestions ∧
      s.inferRanges.lastIndex = s.lastIndex := by
  obtain ⟨feed, hinfer⟩ := s.inferRanges_eq
  rw [hinfer]
  exact ⟨rfl, rfl, rfl⟩

theorem gate_placeEdge (s : Session) (x : EdgeSuggestion) : (s.placeEdge x).1.gate = s.gate := by
  unfold placeEdge
  split
  · rfl
  · dsimp only
    split
    · rfl
    · split <;> rfl

theorem gate_placeNode (s : Session) (x : NodeSuggestion) : (s.placeNode x).1.gate = s.gate := by
  unfold placeNode
  split
  · rfl
  · split <;> rfl

theorem gate_place (s : Session) (x : Suggestion) : (s.place x).1.gate = s.gate := by
  cases x with
  | edge x => exact s.gate_placeEdge x
  | node x => exact s.gate_placeNode x

theorem refreshSuggestions_gate (s : Session) : s.refreshSuggestions.gate = s.gate := by
  unfold refreshSuggestions
  split <;> rfl

/-- Catching up reads the feed, and whatever inferring ranges has added to it. -/
theorem remembers_sync (h : s.gate.Remembers s.canvas) :
    s.sync.gate.Remembers s.sync.canvas := by
  have hinferred : s.gate.Remembers s.inferRanges.canvas :=
    keeps_inferRanges (P := s.gate.Remembers) (fun _ _ _ hc => hc.perform _) h
  have hread := hinferred.takeEvents
  rw [← s.inferRanges_rest.1, ← readEvents_gate, ← readEvents_canvas] at hread
  exact hread

theorem remembers_place (h : s.gate.Remembers s.canvas) (x : Suggestion) :
    (s.place x).1.gate.Remembers (s.place x).1.canvas := by
  rw [gate_place]
  exact keeps_place (P := s.gate.Remembers) (fun hc _ => hc.perform _) h x

theorem selected_sync (s : Session) : s.sync.canvas.selected = s.canvas.selected := by
  obtain ⟨feed, hinfer⟩ := s.inferRanges_eq
  show s.inferRanges.readEvents.canvas.selected = _
  rw [readEvents_canvas, hinfer]
  rfl

section Reached

variable {allowed : Operation Float → Prop} {answered : String → Prop} {base : String}
  {sizes : ShapeSizes Float}

/-- Whatever has happened, the gate remembers the element that is selected. -/
theorem Reachable.remembers (reached : Reachable allowed answered base sizes s) :
    s.gate.Remembers s.canvas := by
  induction reached with
  | new =>
    refine ⟨(Canvas.WellFormed.new sizes).of_sameFrame (.refl _) _, rfl, fun element h => ?_⟩
    cases h
  | @edit s _ before change operations _ performs ih =>
    refine remembers_sync ?_
    rw [performs]
    exact List.foldlRecOn (motive := s.gate.Remembers) operations _ ih fun _ hc _ _ => hc.perform _
  | beginLoad _ ih => exact ih
  | @finishLoad s _ ticket fetched ih =>
    rcases s.finishLoad_cases ticket fetched with h | ⟨bindings, h⟩
    · exact h.symm ▸ ih
    · rw [h, refreshSuggestions_gate, refreshSuggestions_canvas]
      exact remembers_sync ih
  | beginPrefixes _ ih => exact ih
  | finishPrefixes _ _ ih => exact ih
  | refreshSuggestions _ ih =>
    rw [refreshSuggestions_gate, refreshSuggestions_canvas]
    exact ih
  | @removeSuggestion s _ index ih =>
    rcases s.removeSuggestion_cases index with h | h
    · exact h.symm ▸ ih
    · exact h.symm ▸ ih
  | @acceptSuggestion s _ index ih =>
    rcases s.acceptSuggestion_cases index with h | ⟨suggestion, h | h⟩
    · exact h.symm ▸ ih
    · exact h.symm ▸ remembers_place ih suggestion
    · rw [h]
      exact remembers_sync (remembers_place ih suggestion)
  | @clear s _ ih =>
    -- the gate forgets, and nothing is selected
    have hsync := remembers_sync (s := { s with canvas := s.canvas.clear, inferred := .empty })
      (ih.perform .clear)
    refine ⟨hsync.wellFormed, hsync.subscribed, fun element hselected => ?_⟩
    have hnone : s.canvas.clear.selected = none := by
      obtain ⟨feed, hclear⟩ := Canvas.clearSelection_eq
        ({ s.canvas with diagram := .empty, completing := false } : Canvas Float)
      rw [Canvas.clear, hclear]
      rfl
    have hkept := selected_sync { s with canvas := s.canvas.clear, inferred := .empty }
    rw [show s.clear.canvas.selected = none from hkept.trans hnone] at hselected
    cases hselected

end Reached

/-! ## Edits of contents -/

/-- Events about the element that the gate remembers change nothing but the gate. -/
theorem foldl_handleEvent_of_known {events : List (Event Float)}
    (known : ∀ shown, .selectionChanged shown ∈ events → s.gate.Knows shown.element) :
    events.foldl handleEvent s = { s with gate := events.foldl Gate.heed s.gate } := by
  induction events generalizing s with
  | nil => rfl
  | cons event rest ih =>
    have hstep : s.handleEvent event = { s with gate := s.gate.heed event } := by
      cases event with
      | selectionChanged shown =>
        have hclosed := (known shown List.mem_cons_self).closed
        simp only [handleEvent, Gate.see, hclosed]
        rfl
      | diagramChanged diagram => rfl
      | selectionCleared => rfl
    rw [List.foldl_cons, hstep, ih ?_]
    · rfl
    · intro shown hshown
      cases event with
      | selectionChanged other =>
        -- all events are about one element
        have hother := known other List.mem_cons_self
        have hlater := known shown (List.mem_cons_of_mem _ hshown)
        rw [Gate.Knows, hother] at hlater
        exact hlater
      | diagramChanged diagram => exact known shown (List.mem_cons_of_mem _ hshown)
      | selectionCleared => exact known shown (List.mem_cons_of_mem _ hshown)

/-- What changes of contents make of a canvas: no element has gone, and what is still to be read of
    the selection is about the element that was selected before. -/
structure Revised (c c' : Canvas Float) : Prop where
  wellFormed : c'.WellFormed
  kept : c.Extends c'
  told : ∃ pending, c'.feed = some pending ∧
    ∀ shown, .selectionChanged shown ∈ pending → c.selected = some shown.element

theorem Revised.perform {c c' : Canvas Float} (h : Revised c c') {operation : Operation Float}
    (extended : c'.Extends (c'.perform operation).1) : Revised c (c'.perform operation).1 := by
  obtain ⟨pending, hpending, hold⟩ := h.told
  obtain ⟨news, hfeed, told⟩ := Canvas.tells_perform h.wellFormed operation
  have hkept : c.Extends (c'.perform operation).1 := h.kept.trans extended
  refine ⟨h.wellFormed.step (Canvas.step_perform c' operation), hkept, pending ++ news, ?_, ?_⟩
  · rw [hfeed, hpending]
    rfl
  · intro shown hshown
    rcases List.mem_append.1 hshown with hshown | hshown
    · exact hold shown hshown
    · rw [← hkept.selected]
      exact told.selected hshown

/-- If the gate remembers the selected element, and the suggestions are for elements that were
    there, catching up with changes of contents leaves the suggestions alone. -/
theorem Revised.sync_suggestions {c : Canvas Float} (h : Revised c s.canvas)
    (knows : ∀ element, c.selected = some element → s.gate.Knows element)
    (described : ∀ x ∈ s.suggestions, (c.diagram.describe? x.element).isSome) :
    s.sync.suggestions = s.suggestions ∧ s.sync.lastIndex = s.lastIndex := by
  -- what is told of the selection is known to the gate, so that it asks for nothing
  obtain ⟨hgate, hsuggestions, hindex⟩ := s.inferRanges_rest
  have hinferred : Revised c s.inferRanges.canvas :=
    keeps_inferRanges (P := Revised c)
      (fun {c'} node label merged hc => hc.perform (c'.extends_inferClass node label merged)) h
  obtain ⟨pending, hpending, htold⟩ := hinferred.told
  have hread : s.inferRanges.readEvents = { s.inferRanges with
      canvas := s.inferRanges.canvas.takeEvents.2
      gate := pending.foldl Gate.heed s.gate } := by
    rw [readEvents, Canvas.takeEvents, hpending, ← hgate]
    refine foldl_handleEvent_of_known fun shown hshown => ?_
    show s.inferRanges.gate.Knows shown.element
    rw [hgate]
    exact knows _ (htold shown hshown)
  -- and no element that something is suggested for has gone
  have hcurrent : ∀ x ∈ s.suggestions, s.inferRanges.readEvents.isCurrent x = true := by
    intro x hx
    rw [isCurrent_eq, hread]
    exact hinferred.kept.describes (described x hx)
  constructor
  · show s.inferRanges.readEvents.suggestions.filter s.inferRanges.readEvents.isCurrent = _
    have hsame : s.inferRanges.readEvents.suggestions = s.suggestions := by
      rw [hread]
      exact hsuggestions
    rw [hsame]
    exact List.filter_eq_self.2 hcurrent
  · show s.inferRanges.readEvents.lastIndex = _
    rw [hread]
    exact hindex

section Reached

variable {allowed : Operation Float → Prop} {answered : String → Prop} {base : String}
  {sizes : ShapeSizes Float}

/-- Whatever has happened before: an edit that changes contents, assigns, moves or marks elements,
    draws edges or lets one follow the pointer leaves the suggestions as they are, each under its
    number and in its place. No number is given away. It does not matter whether the elements are
    selected, and neither do the classes that are inferred along the way. -/
theorem Reachable.contents_keep_suggestions (reached : Reachable allowed answered base sizes s)
    {β : Type} (change : Canvas Float → Canvas Float × β) {operations : List (Operation Float)}
    (contents : ∀ operation ∈ operations, operation.IsContent)
    (performs : (change s.canvas).1 = s.canvas.run operations) :
    (s.edit change).1.suggestions = s.suggestions ∧
      (s.edit change).1.lastIndex = s.lastIndex := by
  have hstart : Revised s.canvas s.canvas :=
    ⟨reached.wellFormed, .refl _, [], reached.feed_eq, fun _ h => absurd h List.not_mem_nil⟩
  have hrevised : Revised s.canvas (change s.canvas).1 := by
    rw [performs]
    refine List.foldlRecOn (motive := Revised s.canvas) operations _ hstart ?_
    intro c' hc' operation hmem
    exact hc'.perform (c'.extends_of_content (contents operation hmem))
  have hknows : ∀ element, s.canvas.selected = some element → s.gate.Knows element := by
    have hremembers := reached.remembers.knows
    rw [Canvas.takeEvents, reached.feed_eq] at hremembers
    exact hremembers
  exact Revised.sync_suggestions (s := { s with canvas := (change s.canvas).1 }) hrevised hknows
    fun _ hx => reached.steady.described hx

end Reached

/-- A session with a suggestion for the selected node. -/
def suggesting : Session :=
  let loaded := ((Session.new "http://base/" defaultSizes).reload twoRanges).1
  (loaded.edit fun c => (c.run [.createNode ⟨0, 0⟩ .unboundVariable "?",
    .createNode ⟨300, 0⟩ .uri ":Person", .select (.node ⟨2⟩)], ())).1

/-- The selected node shows something else, and an edge to the other node gives that a class. -/
def reviseContents (c : Canvas Float) : Canvas Float × Unit :=
  (c.run [.moveNode ⟨2⟩ ⟨0, 300⟩, .assignNode ⟨2⟩ .literal "5" none, .updateNode ⟨2⟩ ":Author",
    .connect ⟨2⟩ ⟨1⟩ ":wrote", .setOptional ⟨1⟩ true], ())

theorem contents_keep_suggestions_revised :
    (suggesting.edit reviseContents).1.suggestions = suggesting.suggestions ∧
      suggesting.suggestions.map (fun x => (x.index, x.label)) = [(1, ":wrote"), (2, ":wrote")] ∧
      (suggesting.edit reviseContents).1.canvas.diagram.nodes.map
          (fun n => (n.content, n.inferredClass)) =
        [("?", some "Book | Article"), (":Author", none)] := by
  have hreached : Reachable (fun _ => True) (fun _ => True) "http://base/" defaultSizes
      suggesting := .edit (Reachable.new.reload twoRanges) _ (fun _ _ => trivial) rfl
  have hcontents : ∀ operation ∈ ([.moveNode ⟨2⟩ ⟨0, 300⟩, .assignNode ⟨2⟩ .literal "5" none,
      .updateNode ⟨2⟩ ":Author", .connect ⟨2⟩ ⟨1⟩ ":wrote", .setOptional ⟨1⟩ true] :
        List (Operation Float)), operation.IsContent := by
    simp [Operation.IsContent]
  obtain ⟨hsuggestions, -⟩ :=
    Reachable.contents_keep_suggestions hreached reviseContents hcontents rfl
  exact ⟨hsuggestions, rfl, rfl⟩

end Session

end QueryCanvas
