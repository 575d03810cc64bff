/-
  QueryCanvas.Proofs.Canvas.Completion

  Drawing an edge from one node to another and connecting the nodes come to the
  same.

  While an edge is being drawn, the canvas is the one from before with one more
  edge, whose object end is where the pointer was last (`drawingTo`). Moving the
  pointer moves that end (`followPointer_drawingTo`), and whatever comes to nothing
  leaves it (`WellFormed.perform_of_undone`), so this form lasts for any number
  of operations (`WellFormed.run_drawingTo`). Ending the edge sets both ends anew.
  Nothing of where the pointer was is left then (`completeEdge_drawingTo`).
-/

import QueryCanvas.Proofs.Canvas.Atomicity
import QueryCanvas.Proofs.Canvas.Placement
import QueryCanvas.Scalar.Exact

namespace QueryCanvas.Canvas

variable {α : Type} [Scalar α] {c : Canvas α}

/-! ## While an edge is being drawn -/

/-- The operations after which an edge is being drawn as before: the pointer moves, or an attempt to
    start another edge or to end this one comes to nothing. -/
def LeavesDrawing (c : Canvas α) : Operation α → Prop
  | .followPointer _ => True
  | .startEdge subject content => LeavesUndone (c.perform (.startEdge subject content)).2
  | .completeEdge destination => LeavesUndone (c.perform (.completeEdge destination)).2
  | _ => False

instance decidableLeavesDrawing (c : Canvas α) : DecidablePred c.LeavesDrawing
  | .followPointer _ => .isTrue trivial
  | .startEdge .. | .completeEdge _ => inferInstanceAs (Decidable (LeavesUndone _))
  | .createNode .. | .updateNode .. | .inferClass .. | .setClass .. | .assignNode .. | .moveNode ..
  | .deleteNode _ | .connect .. | .updateEdge .. | .setOptional .. | .deleteEdge _ | .clear
  | .select _ | .clearSelection | .setMode _ | .click .. | .validate => .isFalse id

/-- Such operations one after another. -/
def Meanwhile (c : Canvas α) : List (Operation α) → Prop
  | [] => True
  | operation :: rest => c.LeavesDrawing operation ∧ (c.perform operation).1.Meanwhile rest

instance decidableMeanwhile : (c : Canvas α) → DecidablePred c.Meanwhile
  | _, [] => .isTrue trivial
  | c, operation :: rest =>
    have := decidableMeanwhile (c.perform operation).1 rest
    inferInstanceAs (Decidable (_ ∧ _))

/-- The edge that is being drawn from a node to the pointer. -/
def edgeTo (c : Canvas α) (subject : Node α) (content : String) (pointer : Point α) : Edge α :=
  { c.drawnEdge subject content with object := .free pointer }

/-- The canvas with an edge being drawn from a node to the pointer. -/
def drawingTo (c : Canvas α) (subject : Node α) (content : String) (pointer : Point α)
    (feed : Option (List (Event α))) : Canvas α :=
  { c with
    diagram := { c.diagram with
      edges := c.diagram.edges ++ [c.edgeTo subject content pointer] }
    nextEdge := c.nextEdge + 1
    completing := true
    feed := feed }

section

variable {subject : Node α} {content : String} {pointer : Point α}
  {feed : Option (List (Event α))}

/-- The drawn edge is the one that is found to be incomplete. -/
theorem incompleteEdge?_drawingTo (idle : c.diagram.incompleteEdge? = none) :
    (c.drawingTo subject content pointer feed).diagram.incompleteEdge? =
      some (c.edgeTo subject content pointer) := by
  have hidle : c.diagram.edges.find? (!·.complete) = none := idle
  simp [Diagram.incompleteEdge?, drawingTo, List.find?_append, hidle, edgeTo, drawnEdge]

/-- The drawn edge is changed, and no other. -/
theorem WellFormed.modifyEdge_drawingTo (h : c.WellFormed) (f : Edge α → Edge α) :
    (c.drawingTo subject content pointer feed).diagram.modifyEdge
        (c.edgeTo subject content pointer).id f =
      { c.diagram with edges := c.diagram.edges ++ [f (c.edgeTo subject content pointer)] } :=
  h.modifyEdge_append (e := c.edgeTo subject content pointer) rfl f

/-- At first, the free end is one unit off the node. -/
theorem startEdge_eq_drawingTo (found : c.node? subject.id = some subject)
    (idle : c.diagram.incompleteEdge? = none) (content : String) :
    ∃ pointer feed, c.startEdge subject.id content =
      (c.drawingTo subject content pointer feed, .ok (some ⟨c.nextEdge⟩)) := by
  obtain ⟨feed, hstart⟩ := startEdge_eq found idle content
  exact ⟨subject.position.offset Scalar.one Scalar.one, feed, hstart⟩

theorem WellFormed.drawingTo (h : c.WellFormed) (found : c.node? subject.id = some subject)
    (idle : c.diagram.incompleteEdge? = none) :
    (c.drawingTo subject content pointer feed).WellFormed := by
  have hstarted : (c.drawingTo subject content
      (subject.position.offset Scalar.one Scalar.one) feed).WellFormed :=
    h.step (.startEdge content feed found idle)
  -- from where it started, the free end is moved to the pointer
  have hmoved := hstarted.step (.followPointer pointer feed (incompleteEdge?_drawingTo idle))
  rw [h.modifyEdge_drawingTo] at hmoved
  exact hmoved

/-! ## One operation -/

/-- Moving the pointer moves the free end of the drawn edge. -/
theorem WellFormed.followPointer_drawingTo (h : c.WellFormed)
    (idle : c.diagram.incompleteEdge? = none) (pointer' : Point α) :
    ∃ feed', (c.drawingTo subject content pointer feed).followPointer pointer' =
      c.drawingTo subject content pointer' feed' := by
  have hdrawn : (c.drawingTo subject content pointer feed).diagram.incompleteEdge? =
      some (c.edgeTo subject content pointer) := incompleteEdge?_drawingTo idle
  have hcompleting : (c.drawingTo subject content pointer feed).completing = true := rfl
  refine ⟨((c.drawingTo subject content pointer feed).followPointer pointer').feed, ?_⟩
  simp only [followPointer, hcompleting, hdrawn, if_true, h.modifyEdge_drawingTo]
  rfl

/-- An operation that leaves an edge being drawn moves its free end at most. -/
theorem WellFormed.perform_drawingTo (h : c.WellFormed) (found : c.node? subject.id = some subject)
    (idle : c.diagram.incompleteEdge? = none) {operation : Operation α}
    (leaves : (c.drawingTo subject content pointer feed).LeavesDrawing operation) :
    ∃ pointer' feed', ((c.drawingTo subject content pointer feed).perform operation).1 =
      c.drawingTo subject content pointer' feed' := by
  have wf : (c.drawingTo subject content pointer feed).WellFormed := h.drawingTo found idle
  cases operation with
  | followPointer pointer' => exact ⟨pointer', h.followPointer_drawingTo idle pointer'⟩
  -- attempts that come to nothing
  | startEdge other text => exact ⟨pointer, feed, wf.perform_of_undone leaves⟩
  | completeEdge destination => exact ⟨pointer, feed, wf.perform_of_undone leaves⟩
  | _ => exact leaves.elim

/-- When the edge is ended at a node whose outline it meets, it joins the nodes. -/
theorem WellFormed.completeEdge_drawingTo (h : c.WellFormed) {object : Node α}
    (subjectFound : c.node? subject.id = some subject)
    (objectFound : c.node? object.id = some object) (idle : c.diagram.incompleteEdge? = none)
    (crossed : (anchorPoints? subject object).isSome) (content : String) (pointer : Point α)
    (feed : Option (List (Event α))) :
    ∃ feed', (c.drawingTo subject content pointer feed).completeEdge object.id =
      ({ c with
          diagram := { c.diagram with
            edges := c.diagram.edges ++ [c.joiningEdge subject object content] }
          nextEdge := c.nextEdge + 1
          completing := false
          feed := feed' }, .ok (.completed ⟨c.nextEdge⟩)) := by
  obtain ⟨ends, hends⟩ := Option.isSome_iff_exists.1 crossed
  obtain ⟨feed', hcomplete⟩ := completeEdge_eq (c := c.drawingTo subject content pointer feed)
    (incompleteEdge?_drawingTo idle) rfl subjectFound objectFound hends
  refine ⟨feed', hcomplete.trans ?_⟩
  -- both ends are set anew, so that the pointer does not occur any more
  rw [h.modifyEdge_drawingTo]
  simp only [joiningEdge, hends]
  rfl

/-! ## Any number of operations -/

/-- However often the pointer moves and attempts come to nothing, the edge is being drawn from the
    same node with the same content. -/
theorem WellFormed.run_drawingTo (h : c.WellFormed) (found : c.node? subject.id = some subject)
    (idle : c.diagram.incompleteEdge? = none) {operations : List (Operation α)}
    (meanwhile : (c.drawingTo subject content pointer feed).Meanwhile operations) :
    ∃ pointer' feed', (c.drawingTo subject content pointer feed).run operations =
      c.drawingTo subject content pointer' feed' := by
  -- the pointer and what was told are others after each operation
  induction operations generalizing pointer feed with
  | nil => exact ⟨pointer, feed, rfl⟩
  | cons operation rest ih =>
    obtain ⟨leaves, hrest⟩ := meanwhile
    obtain ⟨pointer', feed', hperform⟩ := h.perform_drawingTo found idle leaves
    rw [hperform] at hrest
    rw [Canvas.run, List.foldl_cons, hperform]
    exact ih hrest

end

/-! ## Every canvas -/

/-- While no edge is being drawn, one can be drawn between two nodes if the segment between them
    enters the outline of the second. The result is that of connecting the nodes, whatever the
    pointer does in the meantime, and whatever else is tried without success. Only what has been
    told is different. -/
theorem Reachable.drawing_is_connecting {allowed : Operation α → Prop} {sizes : ShapeSizes α}
    (reached : Reachable allowed sizes c) (idle : c.diagram.incompleteEdge? = none)
    {subject object : Node α} (subjectFound : c.node? subject.id = some subject)
    (objectFound : c.node? object.id = some object)
    (crossed : (anchorPoints? subject object).isSome) (content : String)
    (operations : List (Operation α))
    (meanwhile : (c.startEdge subject.id content).1.Meanwhile operations) :
    (c.startEdge subject.id content).2 = .ok (some ⟨c.nextEdge⟩) ∧
      (((c.startEdge subject.id content).1.run operations).completeEdge object.id).2 =
        .ok (.completed ⟨c.nextEdge⟩) ∧
      (c.connect subject.id object.id content).2 = .ok ⟨c.nextEdge⟩ ∧
      ∃ feed, (((c.startEdge subject.id content).1.run operations).completeEdge object.id).1 =
        { (c.connect subject.id object.id content).1 with feed := feed } := by
  have wf : c.WellFormed := reached.wellFormed
  have hcompleting : c.completing = false := by
    rw [wf.completing_eq_isSome, idle]
    rfl
  -- drawing, from the start over the operations to the end
  obtain ⟨pointer, feed, hstart⟩ := startEdge_eq_drawingTo subjectFound idle content
  rw [hstart] at meanwhile
  obtain ⟨pointer', feed', hrun⟩ := wf.run_drawingTo subjectFound idle meanwhile
  obtain ⟨told, hcomplete⟩ :=
    wf.completeEdge_drawingTo subjectFound objectFound idle crossed content pointer' feed'
  -- connecting does not look at the flag
  obtain ⟨told', hconnect⟩ := connect_eq subjectFound objectFound content
  rw [hstart, hrun, hcomplete, hconnect]
  refine ⟨rfl, rfl, rfl, told, ?_⟩
  rw [hcompleting]

/-- Sizes in rational coordinates. -/
def plainSizes : ShapeSizes ℚ := ⟨80, 40, 12, 160, 50, 20, 200⟩

/-- Two nodes apart, and a third that lies over the first. -/
def apart : Canvas ℚ :=
  (Canvas.new plainSizes).run [
    .createNode ⟨0, 0⟩ .unboundVariable "?", .createNode ⟨300, 0⟩ .uri "ex:Person",
    .createNode ⟨10, 0⟩ .unboundVariable "?"]

def leftOfApart : Node ℚ :=
  ⟨⟨1⟩, .unboundVariable, "?", ⟨0, 0⟩, NodeKind.unboundVariable.shape ⟨0, 0⟩ plainSizes, false,
    none⟩

def rightOfApart : Node ℚ :=
  ⟨⟨2⟩, .uri, "ex:Person", ⟨300, 0⟩, NodeKind.uri.shape ⟨300, 0⟩ plainSizes, false, none⟩

def overApart : Node ℚ :=
  ⟨⟨3⟩, .unboundVariable, "?", ⟨10, 0⟩, NodeKind.unboundVariable.shape ⟨10, 0⟩ plainSizes, false,
    none⟩

theorem reachable_apart : Reachable (fun _ => True) plainSizes apart :=
  Reachable.new.run fun _ _ => trivial

/-- The pointer moves, another edge is to be started, and the edge is to be ended at the node over
    the first and at one that does not exist. -/
def detour : List (Operation ℚ) :=
  [.followPointer ⟨120, 40⟩, .startEdge ⟨2⟩ "?", .completeEdge ⟨3⟩, .followPointer ⟨250, 10⟩,
    .completeEdge ⟨9⟩]

theorem drawing_is_connecting_apart :
    (apart.startEdge ⟨1⟩ "ex:knows").1.Meanwhile detour ∧
      (((apart.startEdge ⟨1⟩ "ex:knows").1.run detour).completeEdge ⟨2⟩).2 =
        .ok (.completed ⟨1⟩) ∧
      ∃ feed, (((apart.startEdge ⟨1⟩ "ex:knows").1.run detour).completeEdge ⟨2⟩).1 =
        { (apart.connect ⟨1⟩ ⟨2⟩ "ex:knows").1 with feed := feed } := by
  have hcrossed : (anchorPoints? leftOfApart rightOfApart).isSome := by decide +kernel
  have hmeanwhile : (apart.startEdge ⟨1⟩ "ex:knows").1.Meanwhile detour := by decide +kernel
  have hleft : apart.node? ⟨1⟩ = some leftOfApart := rfl
  have hright : apart.node? ⟨2⟩ = some rightOfApart := rfl
  obtain ⟨-, hcompleted, -, hsame⟩ := Reachable.drawing_is_connecting reachable_apart rfl
    hleft hright hcrossed "ex:knows" detour hmeanwhile
  exact ⟨hmeanwhile, hcompleted, hsame⟩

end QueryCanvas.Canvas
