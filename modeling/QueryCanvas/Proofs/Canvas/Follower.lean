/-
  QueryCanvas.Proofs.Canvas.Follower

  Subscribers that keep a copy of what the canvas shows, and bring it up to
  date from nothing but the events that they read.

  What a copy would be after reading the whole feed is followed through a run.
  One operation moves it by the events that the operation tells
  (`held_operate`), and reading moves it not at all (`held_read`).

  A copy of the diagram is exact whenever the feed has been read
  (`Reachable.diagram_followed`). A copy of the selection is exact as long as
  the class of the selected node is not inferred to be of another kind
  (`selection_followed_throughout_iff`).
-/

import QueryCanvas.Proofs.Log
import QueryCanvas.Proofs.Canvas.Feed

namespace QueryCanvas

variable {α σ : Type}

/-! ## Copies -/

/-- A copy of the diagram after an event: the announced diagram replaces it. -/
def Diagram.heed (held : Diagram α) : Event α → Diagram α
  | .diagramChanged diagram => diagram
  | .selectionChanged _ | .selectionCleared => held

/-- A copy of the selection after an event: the latest announced selection is remembered until
    nothing is selected. -/
def Selection.heed (held : Option Selection) : Event α → Option Selection
  | .diagramChanged _ => held
  | .selectionChanged selection => some selection
  | .selectionCleared => none

/-- A canvas, and the copy that its subscriber holds. -/
structure Follower (α σ : Type) where
  canvas : Canvas α
  held : σ

/-- What can happen to a canvas that is followed. -/
inductive Move (α : Type)
  | operate (operation : Operation α)
  /-- The subscriber reads the feed. -/
  | read

namespace Follower

/-- The subscriber reads the feed, and heeds the events in their order. -/
def read (heed : σ → Event α → σ) (f : Follower α σ) : Follower α σ :=
  ⟨f.canvas.takeEvents.2, f.canvas.takeEvents.1.foldl heed f.held⟩

variable [Scalar α]

def move (heed : σ → Event α → σ) (f : Follower α σ) : Move α → Follower α σ
  | .operate operation => { f with canvas := (f.canvas.perform operation).1 }
  | .read => f.read heed

def run (heed : σ → Event α → σ) (f : Follower α σ) (moves : List (Move α)) : Follower α σ :=
  moves.foldl (move heed) f

variable {f : Follower α σ}

/-! ## What the subscriber would hold -/

omit [Scalar α] in
/-- Reading twice is reading once. -/
theorem held_read (heed : σ → Event α → σ) (f : Follower α σ) :
    ((f.read heed).read heed).held = (f.read heed).held := by
  have hempty : (f.read heed).canvas.takeEvents.1 = [] := by
    show (f.canvas.feed.map fun _ => []).getD [] = []
    cases f.canvas.feed <;> rfl
  rw [read, hempty]
  rfl

/-- An operation moves the copy by the events that it tells. -/
theorem held_operate (heed : σ → Event α → σ) (subscribed : f.canvas.feed.isSome)
    {operation : Operation α} {news : List (Event α)}
    (told : (f.canvas.perform operation).1.feed = f.canvas.feed.map (· ++ news)) :
    ((f.move heed (.operate operation)).read heed).held =
      news.foldl heed (f.read heed).held := by
  obtain ⟨pending, hpending⟩ := Option.isSome_iff_exists.1 subscribed
  have hbefore : (f.read heed).held = pending.foldl heed f.held := by
    simp only [read, Canvas.takeEvents, hpending]
    rfl
  have hafter : ((f.move heed (.operate operation)).read heed).held =
      (pending ++ news).foldl heed f.held := by
    simp only [read, move, Canvas.takeEvents, told, hpending]
    rfl
  rw [hafter, hbefore, List.foldl_append]

/-! ## Runs -/

/-- The canvas is one that can be reached, and has a subscriber. -/
structure Watched (f : Follower α σ) : Prop where
  wellFormed : f.canvas.WellFormed
  subscribed : f.canvas.feed.isSome

theorem Watched.move (h : f.Watched) (heed : σ → Event α → σ) (m : Move α) :
    (f.move heed m).Watched := by
  have kept : Canvas.IsKept (fun _ => True) fun c : Canvas α => c.WellFormed ∧ c.feed.isSome :=
    Canvas.isKept_subscribed _
  cases m with
  | operate operation =>
    obtain ⟨wf, subscribed⟩ := kept.perform ⟨h.wellFormed, h.subscribed⟩ trivial
    exact ⟨wf, subscribed⟩
  | read =>
    obtain ⟨wf, subscribed⟩ := kept.takeEvents ⟨h.wellFormed, h.subscribed⟩
    exact ⟨wf, subscribed⟩

theorem Watched.run (h : f.Watched) (heed : σ → Event α → σ) (moves : List (Move α)) :
    (f.run heed moves).Watched :=
  List.foldlRecOn (motive := Watched) moves _ h fun _ hf m _ => hf.move heed m

theorem run_append_singleton (heed : σ → Event α → σ) (f : Follower α σ) (moves : List (Move α))
    (m : Move α) : f.run heed (moves ++ [m]) = (f.run heed moves).move heed m := by
  rw [run, List.foldl_append]
  rfl

end Follower

namespace Canvas

variable {c c' : Canvas α} {operation : Operation α} {news : List (Event α)}

/-! ## The diagram -/

/-- What is told leads from one diagram to the other. -/
theorem Told.diagram_heeded (told : Told c operation c' news) :
    news.foldl Diagram.heed c.diagram = c'.diagram := by
  cases told with
  | nothing diagram shows => exact diagram.symm
  | selection diagram shows => exact diagram.symm
  | cleared diagram shows => exact diagram.symm
  | _ => rfl

/-- A diagram that has changed is announced as it is in the end, and no other after it. -/
theorem Told.announced (told : Told c operation c' news) (changed : c'.diagram ≠ c.diagram) :
    ∃ before after, news = before ++ .diagramChanged c'.diagram :: after ∧
      ∀ diagram, .diagramChanged diagram ∉ after := by
  cases told with
  | nothing diagram shows => exact absurd diagram changed
  | selection diagram shows => exact absurd diagram changed
  | cleared diagram shows => exact absurd diagram changed
  | diagram shows => exact ⟨[], [], rfl, by simp⟩
  | missed misses shows => exact ⟨[], [], rfl, by simp⟩
  | @diagramThenSelection shown shows => exact ⟨[], [.selectionChanged shown], rfl, by simp⟩
  | clearedThenDiagram shows => exact ⟨[.selectionCleared], [], rfl, by simp⟩

variable [Scalar α]

/-- Wherever a subscriber starts from the diagram at hand, and whatever is done and read after
    that: having read the feed, the subscriber holds the diagram on the canvas. An operation that
    changes the diagram appends it to the feed, behind everything that it has told before and with
    no other diagram behind it. -/
theorem Reachable.diagram_followed {allowed : Operation α → Prop} {sizes : ShapeSizes α}
    (reached : Reachable allowed sizes c) (moves : List (Move α)) :
    let f := Follower.run Diagram.heed ⟨c.subscribe, c.diagram⟩ moves
    (f.read Diagram.heed).held = f.canvas.diagram ∧
    ∀ operation, (f.canvas.perform operation).1.diagram ≠ f.canvas.diagram →
      ∃ told before after, f.canvas.feed = some told ∧
        (f.canvas.perform operation).1.feed = some (told ++
          (before ++ .diagramChanged (f.canvas.perform operation).1.diagram :: after)) ∧
        ∀ diagram, .diagramChanged diagram ∉ after := by
  have hstart : Follower.Watched (⟨c.subscribe, c.diagram⟩ : Follower α (Diagram α)) :=
    ⟨reached.subscribe.wellFormed, rfl⟩
  dsimp only
  constructor
  · -- one move keeps the copy exact
    induction moves using List.reverseRecOn with
    | nil => rfl
    | append_singleton moves m ih =>
      rw [Follower.run_append_singleton]
      have hwatched := hstart.run Diagram.heed moves
      cases m with
      | operate operation =>
        obtain ⟨news, hfeed, told⟩ := tells_perform hwatched.wellFormed operation
        rw [Follower.held_operate _ hwatched.subscribed hfeed, ih]
        exact told.diagram_heeded
      | read =>
        show ((Follower.read _ _).read _).held = _
        rw [Follower.held_read]
        exact ih
  · -- news of a change holds the diagram as it is afterwards, and no older one behind it
    intro operation hchanged
    have hwatched := hstart.run Diagram.heed moves
    obtain ⟨pending, hpending⟩ := Option.isSome_iff_exists.1 hwatched.subscribed
    obtain ⟨news, hfeed, told⟩ := tells_perform hwatched.wellFormed operation
    obtain ⟨before, after, rfl, hlast⟩ := told.announced hchanged
    refine ⟨pending, before, after, hpending, ?_, hlast⟩
    rw [hfeed, hpending]
    rfl

/-- A subscriber of the sketch. A node goes together with the edge to it, the feed is read, and the
    other edge follows the pointer. -/
def trimmed : Follower Float (Diagram Float) :=
  Follower.run Diagram.heed ⟨sketch.subscribe, sketch.diagram⟩ [
    .operate (.deleteNode ⟨2⟩), .read, .operate (.followPointer ⟨90, 40⟩)]

theorem diagram_followed_trimmed :
    Reachable (fun _ => True) defaultSizes sketch ∧
      (trimmed.read Diagram.heed).held = trimmed.canvas.diagram ∧
      (trimmed.canvas.perform (.deleteEdge ⟨2⟩)).1.diagram ≠ trimmed.canvas.diagram ∧
      ∃ told before after, trimmed.canvas.feed = some told ∧
        (trimmed.canvas.perform (.deleteEdge ⟨2⟩)).1.feed = some (told ++
          (before ++ .diagramChanged (trimmed.canvas.perform (.deleteEdge ⟨2⟩)).1.diagram ::
            after)) ∧
        ∀ diagram, .diagramChanged diagram ∉ after := by
  obtain ⟨hheld, htold⟩ := Reachable.diagram_followed reachable_sketch [
    .operate (.deleteNode ⟨2⟩), .read, .operate (.followPointer ⟨90, 40⟩)]
  have hchanged :
      (trimmed.canvas.perform (.deleteEdge ⟨2⟩)).1.diagram ≠ trimmed.canvas.diagram := by
    intro heq
    have hcount : trimmed.canvas.diagram.edges.length = 1 := rfl
    rw [← heq] at hcount
    cases hcount
  exact ⟨reachable_sketch, hheld, hchanged, htold (.deleteEdge ⟨2⟩) hchanged⟩

/-! ## The selection -/

omit [Scalar α] in
/-- What is told leads from one selection to the other, unless the selection is missed. -/
theorem Told.selection_heeded (told : Told c operation c' news) (heeded : ¬ Misses c operation) :
    news.foldl Selection.heed c.selection? = c'.selection? := by
  cases told with
  | nothing diagram shows => exact shows.symm
  | diagram shows => exact shows.symm
  | selection diagram shows => exact shows.symm
  | cleared diagram shows => exact shows.symm
  | diagramThenSelection shows => exact shows.symm
  | clearedThenDiagram shows => exact shows.symm
  | missed misses shows => exact absurd misses heeded

/-- An operation keeps an exact copy of the selection exact if and only if it does not miss the
    selection. -/
theorem held_selection_perform_iff {f : Follower α (Option Selection)} (watched : f.Watched)
    (exact : (f.read Selection.heed).held = f.canvas.selection?) (operation : Operation α) :
    ((f.move Selection.heed (.operate operation)).read Selection.heed).held =
        (f.canvas.perform operation).1.selection? ↔ ¬ Misses f.canvas operation := by
  constructor
  · intro hheld misses
    obtain ⟨hfeed, hshows⟩ := misses.told
    rw [Follower.held_operate _ watched.subscribed hfeed, exact] at hheld
    exact hshows hheld.symm
  · intro heeded
    obtain ⟨news, hfeed, told⟩ := tells_perform watched.wellFormed operation
    rw [Follower.held_operate _ watched.subscribed hfeed, exact]
    exact told.selection_heeded heeded

/-- A subscriber of an empty canvas, on which nothing is selected. -/
def follower (sizes : ShapeSizes α) : Follower α (Option Selection) :=
  ⟨(Canvas.new sizes).subscribe, none⟩

/-- Whatever is done and read from the start: with the feed read, a subscriber that remembers the
    latest announced selection holds at every moment what is selected, with its content and kind,
    if and only if no inferred class changes the kind of the selected node. -/
theorem selection_followed_throughout_iff (sizes : ShapeSizes α) (moves : List (Move α)) :
    (∀ before, before <+: moves →
        (((follower sizes).run Selection.heed before).read Selection.heed).held =
          ((follower sizes).run Selection.heed before).canvas.selection?) ↔
      ∀ before operation, before ++ [.operate operation] <+: moves →
        ¬ Misses ((follower sizes).run Selection.heed before).canvas operation := by
  let run := (follower sizes).run Selection.heed
  let Exact (f : Follower α (Option Selection)) : Prop :=
    (f.read Selection.heed).held = f.canvas.selection?
  let Breaks (f : Follower α (Option Selection)) (m : Move α) : Prop :=
    ∃ operation, m = .operate operation ∧ Misses f.canvas operation
  have hstart : Exact (run []) := rfl
  have hbroken : ∀ before m, Exact (run before) →
      (Exact (run (before ++ [m])) ↔ ¬ Breaks (run before) m) := by
    intro before m hexact
    have hwatched : (run before).Watched :=
      Follower.Watched.run ⟨(WellFormed.new sizes).of_sameFrame (.refl _) _, rfl⟩ _ before
    have hnext : run (before ++ [m]) = (run before).move Selection.heed m :=
      Follower.run_append_singleton _ _ _ _
    rw [hnext]
    cases m with
    | operate operation =>
      have hiff := held_selection_perform_iff hwatched hexact operation
      refine hiff.trans (not_congr ⟨fun misses => ⟨operation, rfl, misses⟩, ?_⟩)
      rintro ⟨_, heq, misses⟩
      cases heq
      exact misses
    | read =>
      -- reading breaks nothing
      refine iff_of_true ?_ (by rintro ⟨_, heq, -⟩; cases heq)
      show ((Follower.read _ _).read _).held = _
      rw [Follower.held_read]
      exact hexact
  rw [show (∀ before, before <+: moves → Exact (run before)) ↔ _ from
    holds_throughout_iff hstart hbroken moves]
  constructor
  · exact fun unbroken before operation hmoves misses =>
      unbroken before _ hmoves ⟨operation, rfl, misses⟩
  · rintro heeded before _ hmoves ⟨operation, rfl, misses⟩
    exact heeded before operation hmoves misses

/-- A new variable is selected, and becomes an amalgam when its class is inferred. The subscriber
    reads after each operation. -/
def amalgamated : Follower Float (Option Selection) :=
  (follower defaultSizes).run Selection.heed [
    .operate (.createNode ⟨0, 0⟩ .unboundVariable "?"), .read,
    .operate (.inferClass ⟨1⟩ "Amalgam" true), .read]

/-- The subscriber still holds a variable. -/
theorem selection_outdated :
    amalgamated.held = some ⟨.node ⟨1⟩, "?", .node .unboundVariable⟩ ∧
      amalgamated.canvas.selection? = some ⟨.node ⟨1⟩, "?", .node .amalgam⟩ ∧
      amalgamated.held ≠ amalgamated.canvas.selection? := by
  decide

end Canvas

end QueryCanvas
