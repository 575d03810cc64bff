/-
  QueryCanvas.Proofs.Session.CaughtUp

  Sessions that have caught up with their canvas. Between two calls a session
  always has: no range is due, no event is unread, and nothing refers to a
  removed element. So catching up once more changes nothing, and a change of the
  canvas that was refused leaves the whole session as it was
  (`CaughtUp.edit_eq`).

  One pass is enough although inferring ranges tells of changes itself: the
  feed is read after it, and what is read changes neither the canvas nor what
  was inferred (`Reachable.in_step_with_canvas`).

  Only a few calls touch the canvas or what was inferred for its edges, and
  these end by catching up. For the other calls the canvas is all that has to be
  looked at.
-/

import QueryCanvas.Proofs.Canvas.Atomicity
import QueryCanvas.Proofs.Canvas.Feed
import QueryCanvas.Proofs.Session.Acceptance

namespace QueryCanvas

/-! ## Reading and dropping, twice -/

/-- Once a feed is read there is nothing to read. -/
theorem Canvas.takeEvents_takeEvents {α : Type} (c : Canvas α) :
    c.takeEvents.2.takeEvents = ([], c.takeEvents.2) := by
  unfold takeEvents
  cases c.feed <;> rfl

/-- Dropping keys twice is dropping them once. -/
theorem Dict.filterKeys_filterKeys {κ ν : Type} (d : Dict κ ν) (p : κ → Bool) :
    (d.filterKeys p).filterKeys p = d.filterKeys p := by
  apply Dict.ext_entries
  show (d.entries.filter fun e => p e.1).filter (fun e => p e.1) = d.entries.filter fun e => p e.1
  rw [List.filter_filter]
  simp only [Bool.and_self]

namespace Session

/-! ## Caught up -/

/-- There is nothing to catch up with. -/
structure CaughtUp (s : Session) : Prop where
  steady : s.Steady
  /-- All events are read. -/
  read : s.canvas.takeEvents = ([], s.canvas)
  /-- Ranges are remembered for existing edges only. -/
  remembered : s.inferred.filterKeys (fun edge => (s.canvas.edge? edge).isSome) = s.inferred

namespace CaughtUp

variable {s : Session}

/-- Catching up again changes nothing. -/
theorem sync_eq (h : s.CaughtUp) : s.sync = s := by
  have hinfer : s.inferRanges = s := h.steady.settled.inferRanges_eq
  have hread : s.readEvents = s := by
    rw [readEvents, h.read]
    rfl
  have hcurrent : s.suggestions.filter s.isCurrent = s.suggestions :=
    List.filter_eq_self.2 h.steady.current
  have hprune : s.prune = s := by
    rw [prune, hcurrent, h.remembered]
  rw [sync, hinfer, hread, hprune]

/-- A change that leaves the canvas as it is leaves the session as it is. -/
theorem edit_eq (h : s.CaughtUp) {β : Type} {change : Canvas Float → Canvas Float × β}
    (kept : (change s.canvas).1 = s.canvas) : (s.edit change).1 = s := by
  show ({ s with canvas := (change s.canvas).1 } : Session).sync = s
  rw [kept]
  exact h.sync_eq

/-- What was caught up with is the canvas and what was inferred for its edges. -/
theorem congr (h : s.CaughtUp) {s' : Session} (steady : s'.Steady)
    (canvas : s'.canvas = s.canvas) (inferred : s'.inferred = s.inferred) : s'.CaughtUp := by
  refine ⟨steady, ?_, ?_⟩
  · rw [canvas]
    exact h.read
  · rw [canvas, inferred]
    exact h.remembered

end CaughtUp

/-- Whatever has happened to the canvas, a session that catches up with it has caught up. -/
theorem caughtUp_sync {s : Session} (wf : s.canvas.WellFormed) : s.sync.CaughtUp := by
  have hcanvas : s.sync.canvas = s.inferRanges.canvas.takeEvents.2 := by
    show s.inferRanges.readEvents.canvas = _
    rw [readEvents_canvas]
  refine ⟨steady_sync wf, ?_, ?_⟩
  · rw [hcanvas]
    exact Canvas.takeEvents_takeEvents _
  · have hinferred : s.sync.inferred = s.inferRanges.readEvents.inferred.filterKeys
        fun edge => (s.sync.canvas.edge? edge).isSome := rfl
    rw [hinferred]
    exact Dict.filterKeys_filterKeys _ _

/-- Accepting a suggestion either leaves the session as it is or ends by catching up. -/
theorem caughtUp_acceptSuggestion {s : Session} (h : s.CaughtUp)
    (reached : Canvas.Reachable (fun _ => True) s.canvas.sizes s.canvas) (index : Nat) :
    (s.acceptSuggestion index).1.CaughtUp := by
  obtain ⟨haccept, -⟩ := h.steady.accept reached.wellFormed index
  cases hfound : s.suggestion? index with
  | none =>
    have hmissing : (s.acceptSuggestion index).1 = s := by simp only [acceptSuggestion, hfound]
    rw [hmissing]
    exact h
  | some x =>
    have hwf : (s.place x).1.canvas.WellFormed :=
      (canvas_place (fun _ _ => trivial) reached x).wellFormed
    have hequation := acceptSuggestion_eq hfound
    cases hplace : s.place x with
    | mk s' outcome =>
      rw [hplace] at hequation hwf
      cases outcome with
      | error error =>
        -- placing fails before it has changed anything
        rw [hequation] at haccept ⊢
        cases haccept with
        | unknown missing => exact h
        | incomplete found there drawn => exact h
      | ok accepted =>
        rw [hequation]
        exact caughtUp_sync hwf

/-! ## Every session -/

variable {allowed : Operation Float → Prop} {answered : String → Prop} {base : String}
  {sizes : ShapeSizes Float} {s : Session}

/-- Between two calls a session has caught up with its canvas. -/
theorem Reachable.caughtUp (reached : Reachable allowed answered base sizes s) : s.CaughtUp := by
  -- what touches the canvas or the facts catches up itself; the rest leaves both alone
  have hsteady := reached.steady
  induction reached with
  | new => exact ⟨hsteady, rfl, rfl⟩
  | @edit s _ before change operations _ performs _ =>
    have wf : (change s.canvas).1.WellFormed := performs ▸ before.wellFormed.run operations
    exact caughtUp_sync wf
  | beginLoad before ih => exact (ih before.steady).congr hsteady rfl rfl
  | @finishLoad s before ticket fetched ih =>
    rcases s.finishLoad_cases ticket fetched with h | ⟨bindings, h⟩
    · rw [h]
      exact ih before.steady
    · rw [h] at hsteady ⊢
      have wf : (s.loaded bindings).canvas.WellFormed := before.wellFormed
      refine (caughtUp_sync wf).congr hsteady (refreshSuggestions_canvas _) ?_
      unfold Session.refreshSuggestions
      split <;> rfl
  | beginPrefixes before ih => exact (ih before.steady).congr hsteady rfl rfl
  | finishPrefixes before _ ih => exact (ih before.steady).congr hsteady rfl rfl
  | @refreshSuggestions s before ih =>
    refine (ih before.steady).congr hsteady (refreshSuggestions_canvas _) ?_
    unfold Session.refreshSuggestions
    split <;> rfl
  | @removeSuggestion s before index ih =>
    rcases s.removeSuggestion_cases index with h | h
    · rw [h]
      exact ih before.steady
    · rw [h] at hsteady ⊢
      exact (ih before.steady).congr hsteady rfl rfl
  | acceptSuggestion before index ih =>
    have hcanvas := before.someCanvas
    exact caughtUp_acceptSuggestion (ih before.steady) (hcanvas.sizes_eq ▸ hcanvas) index
  | @clear s before _ =>
    have wf : s.canvas.clear.WellFormed := before.wellFormed.step (Canvas.step_clear _)
    exact (caughtUp_sync wf).congr hsteady rfl rfl

/-! ## In step with the canvas -/

theorem Reachable.subscribed (reached : Reachable allowed answered base sizes s) :
    s.canvas.feed.isSome := by
  have hany : Reachable (fun _ => True) answered base sizes s :=
    reached.mono (fun _ _ => trivial) fun _ h => h
  have hnew : Canvas.Reachable (fun _ => True) sizes (Canvas.new sizes).subscribe :=
    .subscribe .new
  exact (hany.canvas_induct ⟨hnew.wellFormed, rfl⟩ (Canvas.isKept_subscribed _)
    fun _ _ => trivial).2

/-- All events are read. -/
theorem Reachable.feed_eq (reached : Reachable allowed answered base sizes s) :
    s.canvas.feed = some [] := by
  obtain ⟨pending, hpending⟩ := Option.isSome_iff_exists.1 reached.subscribed
  have hread : s.canvas.feed.getD [] = [] := congrArg Prod.fst reached.caughtUp.read
  rw [hpending, Option.getD_some] at hread
  rw [hpending, hread]

theorem CaughtUp.exists_of_inferred (h : s.CaughtUp) {edge : EdgeId} {content : String}
    (hinferred : s.inferred.get? edge = some content) : (s.canvas.edge? edge).isSome := by
  rw [← h.remembered, Dict.get?_filterKeys] at hinferred
  split at hinferred
  · assumption
  · cases hinferred

/-- What a complete edge to an anonymous node shows has been looked up. -/
theorem Settled.inferred_eq (h : s.Settled) {e : Edge Float} (he : e ∈ s.canvas.diagram.edges)
    (complete : e.complete = true) (kind : e.kind = .boundProperty) {n : Node Float}
    (found : s.canvas.node? n.id = some n) (ends : e.object.node? = some n.id)
    (inferable : n.kind.isInferable = true) : s.inferred.get? e.id = some e.content := by
  by_contra hunseen
  have hdue : s.inferenceTarget? e = some (e.id, e.content, n.id) :=
    inferenceTarget?_eq_some_iff.2
      ⟨complete, kind, hunseen, n, ends, found, inferable, rfl⟩
  rw [h e he] at hdue
  cases hdue

/-- Between two calls a session is in step with its canvas, whatever was called before. No event is
    unread. Ranges are remembered for existing edges only, and for each complete edge that shows a
    property and leads to a variable without a name or to an amalgam, it is remembered what the edge
    shows now. So changing nothing changes nothing: neither the canvas nor the suggestions, neither
    what is remembered nor the gate. -/
theorem Reachable.in_step_with_canvas (reached : Reachable allowed answered base sizes s) :
    s.canvas.feed = some [] ∧
      (∀ edge content, s.inferred.get? edge = some content → (s.canvas.edge? edge).isSome) ∧
      (∀ e ∈ s.canvas.diagram.edges, e.complete = true → e.kind = .boundProperty →
        ∀ n ∈ s.canvas.diagram.nodes, e.object.node? = some n.id →
          n.kind = .unboundVariable ∨ n.kind = .amalgam →
            s.inferred.get? e.id = some e.content) ∧
      s.edit (fun c => (c, ())) = (s, ()) := by
  have hcaught : s.CaughtUp := reached.caughtUp
  refine ⟨reached.feed_eq, fun _ _ => hcaught.exists_of_inferred, ?_, ?_⟩
  · intro e he complete kind n hn ends anonymous
    have hinferable : n.kind.isInferable = true := by
      rcases anonymous with hkind | hkind
      · rw [hkind]
        rfl
      · rw [hkind]
        rfl
    have hfound : s.canvas.node? n.id = some n :=
      Diagram.node?_of_mem reached.wellFormed.nodes_nodup hn
    exact hcaught.steady.settled.inferred_eq he complete kind hfound ends hinferable
  · have hsame : (s.edit fun c => (c, ())).1 = s := hcaught.edit_eq rfl
    exact Prod.ext hsame rfl

/-- A session in which the ontology has made amalgams of two anonymous nodes. The edge to one of
    them was relabelled since, and the other edge was removed. -/
def relabelled : Session :=
  let begun := (Session.new "http://base/" defaultSizes).beginLoad
  let loaded := (begun.1.finishLoad begun.2 (.ok twoRanges)).1
  let drawn := (loaded.edit fun c => (c.run [.createNode ⟨0, 0⟩ .uri ":Person",
    .createNode ⟨300, 0⟩ .unboundVariable "?", .createNode ⟨0, 300⟩ .unboundVariable "?",
    .connect ⟨1⟩ ⟨2⟩ ":wrote", .connect ⟨1⟩ ⟨3⟩ ":wrote"], ())).1
  (drawn.edit fun c => (c.run [.updateEdge ⟨1⟩ ":met", .deleteEdge ⟨2⟩], ())).1

theorem reachable_relabelled :
    Reachable (fun _ => True) (fun _ => True) "http://base/" defaultSizes relabelled := by
  refine .edit (.edit (.finishLoad (.beginLoad .new) _ _) _ ?_ rfl) _ ?_ rfl
  · exact fun _ _ => trivial
  · exact fun _ _ => trivial

theorem in_step_with_canvas_relabelled :
    relabelled.canvas.diagram.nodes.map Node.kind = [.uri, .amalgam, .amalgam] ∧
      relabelled.canvas.feed = some [] ∧
      relabelled.inferred.get? ⟨1⟩ = some ":met" ∧
      (∀ content, relabelled.inferred.get? ⟨2⟩ ≠ some content) ∧
      relabelled.edit (fun c => (c, ())) = (relabelled, ()) := by
  obtain ⟨hread, hexist, hinferred, hsame⟩ := Reachable.in_step_with_canvas reachable_relabelled
  have hedge : ∃ e ∈ relabelled.canvas.diagram.edges, e.id = ⟨1⟩ ∧ e.content = ":met" ∧
      e.complete = true ∧ e.kind = .boundProperty ∧ e.object.node? = some ⟨2⟩ :=
    ⟨_, List.mem_cons_self, rfl, rfl, rfl, rfl, rfl⟩
  have hnode : ∃ n ∈ relabelled.canvas.diagram.nodes, n.id = ⟨2⟩ ∧ n.kind = .amalgam :=
    ⟨_, List.mem_cons_of_mem _ List.mem_cons_self, rfl, rfl⟩
  obtain ⟨e, he, hid, hcontent, hcomplete, hkind, hobject⟩ := hedge
  obtain ⟨n, hn, hnode, hamalgam⟩ := hnode
  have hmet := hinferred e he hcomplete hkind n hn (hnode ▸ hobject) (.inr hamalgam)
  rw [hid, hcontent] at hmet
  refine ⟨rfl, hread, hmet, fun content hremembered => ?_, hsame⟩
  have hgone : (relabelled.canvas.edge? ⟨2⟩).isSome = false := rfl
  rw [hexist ⟨2⟩ content hremembered] at hgone
  cases hgone

end Session

end QueryCanvas
