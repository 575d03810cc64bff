/-
  QueryCanvas.Proofs.Session.Reachable

  The sessions that a user can be looking at. The services are left open: they
  answer whatever and whenever they like, late or never, and answers may be
  finished in any order. What is required of operations and of the answers of
  the prefix service are parameters.

  The canvas of a session is changed by operations only, those of the user and
  a few of the session itself (`Session.Own`). So whatever holds of reachable
  canvases holds of it.
-/

import QueryCanvas.Proofs.Canvas.Reachable
import QueryCanvas.Proofs.Prefix.Table

namespace QueryCanvas.Session

/-- The operations that a session performs on its own account. -/
inductive Own : Operation Float → Prop
  | place (position : Point Float) : Own (.createNode position .unboundVariable Sparql.anonymous)
  | setClass (node : NodeId) (label : String) : Own (.setClass node (some label))
  | connect (subject object : NodeId) (content : String) : Own (.connect subject object content)
  | assignDatatype (node : NodeId) (label : String) :
      Own (.assignNode node .literal "" (some label))
  | assignClass (node : NodeId) (content : String) : Own (.assignNode node .uri content none)
  | inferClass (node : NodeId) (label : String) (merged : Bool) :
      Own (.inferClass node label merged)
  | clear : Own .clear

/-- The sessions that allowed operations and possible answers lead to. -/
inductive Reachable (allowed : Operation Float → Prop) (answered : String → Prop) (base : String)
    (sizes : ShapeSizes Float) : Session → Prop
  | new : Reachable allowed answered base sizes (.new base sizes)
  /-- A change may look at the canvas, but it consists of allowed operations. -/
  | edit {s : Session} {β : Type} (before : Reachable allowed answered base sizes s)
      (change : Canvas Float → Canvas Float × β) {operations : List (Operation Float)}
      (permitted : ∀ operation ∈ operations, allowed operation)
      (performs : (change s.canvas).1 = s.canvas.run operations) :
      Reachable allowed answered base sizes (s.edit change).1
  | beginLoad {s : Session} (before : Reachable allowed answered base sizes s) :
      Reachable allowed answered base sizes s.beginLoad.1
  | finishLoad {s : Session} (before : Reachable allowed answered base sizes s)
      (ticket : LoadTicket) (fetched : Except ServiceError Results) :
      Reachable allowed answered base sizes (s.finishLoad ticket fetched).1
  | beginPrefixes {s : Session} (before : Reachable allowed answered base sizes s) :
      Reachable allowed answered base sizes s.beginPrefixes.1
  | finishPrefixes {s : Session} (before : Reachable allowed answered base sizes s)
      {answers : PrefixAnswers} (possible : Answered answered answers) :
      Reachable allowed answered base sizes (s.finishPrefixes answers).1
  | refreshSuggestions {s : Session} (before : Reachable allowed answered base sizes s) :
      Reachable allowed answered base sizes s.refreshSuggestions
  | removeSuggestion {s : Session} (before : Reachable allowed answered base sizes s)
      (index : Nat) : Reachable allowed answered base sizes (s.removeSuggestion index).1
  | acceptSuggestion {s : Session} (before : Reachable allowed answered base sizes s)
      (index : Nat) : Reachable allowed answered base sizes (s.acceptSuggestion index).1
  | clear {s : Session} (before : Reachable allowed answered base sizes s) :
      Reachable allowed answered base sizes s.clear

/-- What is allowed and answered in one setting may be so in another. -/
theorem Reachable.mono {allowed allowed' : Operation Float → Prop}
    {answered answered' : String → Prop} {base : String} {sizes : ShapeSizes Float} {s : Session}
    (reached : Reachable allowed answered base sizes s)
    (hallowed : ∀ operation, allowed operation → allowed' operation)
    (hanswered : ∀ shortened, answered shortened → answered' shortened) :
    Reachable allowed' answered' base sizes s := by
  induction reached with
  | new => exact .new
  | edit _ change permitted performs ih =>
    exact .edit ih change (fun operation h => hallowed operation (permitted operation h)) performs
  | beginLoad _ ih => exact .beginLoad ih
  | finishLoad _ ticket fetched ih => exact .finishLoad ih ticket fetched
  | beginPrefixes _ ih => exact .beginPrefixes ih
  | finishPrefixes _ possible ih =>
    refine .finishPrefixes ih fun entry he shortened h => ?_
    exact hanswered shortened (possible entry he shortened h)
  | refreshSuggestions _ ih => exact .refreshSuggestions ih
  | removeSuggestion _ index ih => exact .removeSuggestion ih index
  | acceptSuggestion _ index ih => exact .acceptSuggestion ih index
  | clear _ ih => exact .clear ih

/-! ## What calls come to -/

/-- Puts a suggestion of either sort on the canvas. -/
def place (s : Session) : Suggestion → Session × Except SessionError Accepted
  | .edge suggestion => s.placeEdge suggestion
  | .node suggestion => s.placeNode suggestion

/-- A suggestion that is found is placed, and if that worked it is dropped. -/
theorem acceptSuggestion_eq {s : Session} {index : Nat} {x : Suggestion}
    (found : s.suggestion? index = some x) :
    s.acceptSuggestion index =
      match s.place x with
      | (s, .error error) => (s, .error error)
      | (s, .ok accepted) =>
        ({ s with suggestions := s.suggestions.filter (·.index ≠ index) }.sync, .ok accepted) := by
  unfold acceptSuggestion
  rw [found]
  cases x <;> rfl

/-- Accepting a suggestion finds none, or stops after placing it, or catches up without it. -/
theorem acceptSuggestion_cases (s : Session) (index : Nat) :
    (s.acceptSuggestion index).1 = s ∨
      ∃ suggestion, (s.acceptSuggestion index).1 = (s.place suggestion).1 ∨
        (s.acceptSuggestion index).1 = sync { (s.place suggestion).1 with
          suggestions := (s.place suggestion).1.suggestions.filter (·.index ≠ index) } := by
  cases hfound : s.suggestion? index with
  | none =>
    left
    simp only [acceptSuggestion, hfound]
  | some suggestion =>
    right
    refine ⟨suggestion, ?_⟩
    rw [acceptSuggestion_eq hfound]
    rcases s.place suggestion with ⟨s', error | accepted⟩
    · exact .inl rfl
    · exact .inr rfl

/-- The session with the facts of an answer in place of the old ones. -/
def loaded (s : Session) (bindings : List Binding) : Session :=
  { s with
    ontology := (s.ontology.index bindings s.prefixes).1
    prefixes := (s.ontology.index bindings s.prefixes).2.1
    inferred := .empty }

theorem finishLoad_of_current {s : Session} {ticket : LoadTicket}
    (current : ticket.generation = s.ontology.generation) (results : Results) :
    s.finishLoad ticket (.ok results) =
      ((s.loaded results.bindings).sync.refreshSuggestions,
        .ok (s.ontology.index results.bindings s.prefixes).2.2) := by
  simp only [finishLoad, Ontology.applyLoad, if_pos current, loaded]

theorem finishLoad_of_stale {s : Session} {ticket : LoadTicket}
    (stale : ticket.generation ≠ s.ontology.generation) (results : Results) :
    s.finishLoad ticket (.ok results) = (s, .error .superseded) := by
  simp only [finishLoad, Ontology.applyLoad, if_neg stale]

/-- Finishing a load changes nothing, or replaces the facts and looks for suggestions again. -/
theorem finishLoad_cases (s : Session) (ticket : LoadTicket)
    (fetched : Except ServiceError Results) :
    (s.finishLoad ticket fetched).1 = s ∨
      ∃ bindings,
        (s.finishLoad ticket fetched).1 = (s.loaded bindings).sync.refreshSuggestions := by
  cases fetched with
  | error error => exact .inl rfl
  | ok results =>
    by_cases hticket : ticket.generation = s.ontology.generation
    · exact .inr ⟨results.bindings, by rw [finishLoad_of_current hticket]⟩
    · exact .inl (by rw [finishLoad_of_stale hticket])

theorem removeSuggestion_cases (s : Session) (index : Nat) :
    (s.removeSuggestion index).1 = s ∨
      (s.removeSuggestion index).1 =
        { s with suggestions := s.suggestions.filter (·.index ≠ index) } := by
  cases hfound : s.suggestion? index with
  | none =>
    left
    simp only [removeSuggestion, hfound]
  | some suggestion =>
    right
    simp only [removeSuggestion, hfound]

/-! ## Catching up and the canvas -/

section Canvas

variable {P : Canvas Float → Prop} {s : Session}

/-- Inferring ranges changes the canvas by recording classes. -/
theorem keeps_inferRange (kept : ∀ {c : Canvas Float} (node : NodeId) (label : String)
      (merged : Bool), P c → P (c.perform (.inferClass node label merged)).1) (h : P s.canvas)
    (target : EdgeId × String × NodeId) : P (s.inferRange target).canvas := by
  unfold inferRange
  dsimp only
  split
  · exact kept _ _ _ h
  · exact h

theorem keeps_inferRanges (kept : ∀ {c : Canvas Float} (node : NodeId) (label : String)
      (merged : Bool), P c → P (c.perform (.inferClass node label merged)).1) (h : P s.canvas) :
    P s.inferRanges.canvas := by
  refine List.foldlRecOn (motive := fun s' : Session => P s'.canvas)
    (s.canvas.diagram.edges.filterMap s.inferenceTarget?) inferRange h ?_
  intro s' hs' target _
  exact keeps_inferRange kept hs' target

@[simp] theorem handleEvent_canvas (s : Session) (event : Event Float) :
    (s.handleEvent event).canvas = s.canvas := by
  cases event with
  | selectionChanged selection =>
    simp only [handleEvent]
    split <;> rfl
  | diagramChanged diagram => rfl
  | selectionCleared => rfl

@[simp] theorem readEvents_canvas (s : Session) : s.readEvents.canvas = s.canvas.takeEvents.2 := by
  refine List.foldlRecOn (motive := fun s' : Session => s'.canvas = s.canvas.takeEvents.2)
    s.canvas.takeEvents.1 handleEvent rfl ?_
  intro s' hs' event _
  rw [handleEvent_canvas, hs']

/-- Catching up changes the canvas by operations of the session, and by reading its feed. -/
theorem keeps_sync (kept : Canvas.IsKept Own P) (h : P s.canvas) : P s.sync.canvas := by
  show P s.inferRanges.readEvents.canvas
  rw [readEvents_canvas]
  refine kept.takeEvents (keeps_inferRanges (fun node label merged hc => ?_) h)
  exact kept.perform hc (.inferClass node label merged)

/-- Placing a suggestion changes the canvas by operations of the session, and reads nothing. -/
theorem keeps_placeEdge
    (kept : ∀ {c : Canvas Float} {operation : Operation Float}, P c → Own operation →
      P (c.perform operation).1) (h : P s.canvas)
    (suggestion : EdgeSuggestion) : P (s.placeEdge suggestion).1.canvas := by
  unfold placeEdge
  split
  · exact h
  next subject _ =>
  dsimp only
  -- the three operations that make up the call
  have hplaced := kept h
    (.place (subject.position.offset s.canvas.sizes.suggestionOffset Scalar.zero))
  have hclassed := kept hplaced
    (.setClass ⟨s.canvas.nextNode⟩ suggestion.range.label)
  split
  · next c error hset =>
    obtain rfl : _ = c := congrArg Prod.fst hset
    exact hclassed
  next c hset =>
  obtain rfl : _ = c := congrArg Prod.fst hset
  have hjoined := kept hclassed
    (.connect suggestion.subject ⟨s.canvas.nextNode⟩ suggestion.property.qualifiedName)
  split
  · next c error hconnect =>
    obtain rfl : _ = c := congrArg Prod.fst hconnect
    exact hjoined
  · next c edge hconnect =>
    obtain rfl : _ = c := congrArg Prod.fst hconnect
    exact hjoined

theorem keeps_placeNode
    (kept : ∀ {c : Canvas Float} {operation : Operation Float}, P c → Own operation →
      P (c.perform operation).1) (h : P s.canvas)
    (suggestion : NodeSuggestion) : P (s.placeNode suggestion).1.canvas := by
  unfold placeNode
  split
  · exact h
  · split
    · exact h
    · next node _ =>
      dsimp only
      split
      · exact kept h (.assignDatatype node suggestion.cls.label)
      · exact kept h (.assignClass node suggestion.cls.qualifiedName)

theorem keeps_place
    (kept : ∀ {c : Canvas Float} {operation : Operation Float}, P c → Own operation →
      P (c.perform operation).1) (h : P s.canvas) (suggestion : Suggestion) :
    P (s.place suggestion).1.canvas := by
  cases suggestion with
  | edge suggestion => exact keeps_placeEdge kept h suggestion
  | node suggestion => exact keeps_placeNode kept h suggestion

theorem canvas_place {allowed : Operation Float → Prop} {sizes : ShapeSizes Float}
    (own : ∀ operation, Own operation → allowed operation)
    (h : Canvas.Reachable allowed sizes s.canvas) (suggestion : Suggestion) :
    Canvas.Reachable allowed sizes (s.place suggestion).1.canvas :=
  keeps_place ((Canvas.IsKept.reachable allowed sizes).mono own).perform h suggestion

@[simp] theorem suggestFor_canvas (s : Session) (selection : Selection) :
    (s.suggestFor selection).canvas = s.canvas := rfl

@[simp] theorem refreshSuggestions_canvas (s : Session) :
    s.refreshSuggestions.canvas = s.canvas := by
  unfold refreshSuggestions
  split <;> rfl

end Canvas

/-- What holds of the empty canvas with a subscriber, and is kept by the operations that the session
    and its user perform, holds of the canvas of every session. -/
theorem Reachable.canvas_induct {allowed : Operation Float → Prop} {answered : String → Prop}
    {base : String} {sizes : ShapeSizes Float} {P : Canvas Float → Prop}
    (new : P (Canvas.new sizes).subscribe) (kept : Canvas.IsKept allowed P)
    (own : ∀ operation, Own operation → allowed operation) {s : Session}
    (reached : Reachable allowed answered base sizes s) : P s.canvas := by
  -- a session touches its canvas only by what it is asked for and by operations of its own
  have hown : Canvas.IsKept Own P := kept.mono own
  induction reached with
  | new => exact new
  | edit _ change permitted performs ih =>
    refine keeps_sync hown ?_
    rw [performs]
    exact kept.run ih permitted
  | beginLoad _ ih => exact ih
  | @finishLoad s _ ticket fetched ih =>
    rcases s.finishLoad_cases ticket fetched with h | ⟨bindings, h⟩
    · exact h.symm ▸ ih
    · rw [h, refreshSuggestions_canvas]
      exact keeps_sync hown ih
  | beginPrefixes _ ih => exact ih
  | finishPrefixes _ _ ih => exact ih
  | refreshSuggestions _ ih => exact (refreshSuggestions_canvas _).symm ▸ ih
  | @removeSuggestion s _ index ih =>
    rcases s.removeSuggestion_cases index with h | h
    · exact h.symm ▸ ih
    · exact h.symm ▸ ih
  | @acceptSuggestion s _ index ih =>
    rcases s.acceptSuggestion_cases index with h | ⟨suggestion, h | h⟩
    · exact h.symm ▸ ih
    · exact h.symm ▸ keeps_place hown.perform ih suggestion
    · rw [h]
      exact keeps_sync hown (keeps_place hown.perform ih suggestion)
  | clear _ ih => exact keeps_sync hown (hown.perform ih .clear)

/-- The canvas of a reachable session is reachable. -/
theorem Reachable.canvas {allowed : Operation Float → Prop} {answered : String → Prop}
    {base : String} {sizes : ShapeSizes Float} {s : Session}
    (reached : Reachable allowed answered base sizes s)
    (own : ∀ operation, Own operation → allowed operation) :
    Canvas.Reachable allowed sizes s.canvas :=
  reached.canvas_induct Canvas.Reachable.new.subscribe (.reachable allowed sizes) own

end QueryCanvas.Session
