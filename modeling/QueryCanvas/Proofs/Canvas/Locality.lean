/-
  QueryCanvas.Proofs.Canvas.Locality

  How far an operation reaches.

  `Spares` lists, operation by operation, what is left alone. Most changes of a
  diagram go through its nodes and edges one by one (`Diagram.Varies`), so that
  it is enough to look at one node and at one edge. Which element is selected
  changes by selecting, and by taking the selected element away
  (`WellFormed.selected_perform`); all other operations keep the selection
  together with all elements (`Extends`).
-/

import QueryCanvas.Proofs.Canvas.Deletion
import QueryCanvas.Proofs.Canvas.Layout

namespace QueryCanvas

variable {α : Type}

/-! ## Element by element -/

/-- Two diagrams with the same nodes and edges in the same order, but for changes of these. -/
structure Diagram.Varies (node : Node α → Node α → Prop) (edge : Edge α → Edge α → Prop)
    (d d' : Diagram α) : Prop where
  nodes : List.Forall₂ node d.nodes d'.nodes
  edges : List.Forall₂ edge d.edges d'.edges

/-- A node after a change of the node `id`: unless it is that node, it is as it was. -/
def Node.Follows (id : NodeId) (n n' : Node α) : Prop := n'.id = n.id ∧ (n.id ≠ id → n' = n)

/-- An edge after a change of the edge that is being drawn: unless it is that edge, it is as it
    was. -/
def Edge.Drawn (drawn : Option (Edge α)) (e e' : Edge α) : Prop :=
  e'.id = e.id ∧ (drawn ≠ some e → e' = e)

/-- An edge after a change of what the edge `id` shows. -/
def Edge.Relabelled (id : EdgeId) (e e' : Edge α) : Prop :=
  e' = { e with kind := e'.kind, content := e'.content } ∧ (e.id ≠ id → e' = e)

theorem Node.Follows.modify (id : NodeId) {f : Node α → Node α} (keeps : ∀ n, (f n).id = n.id)
    (n : Node α) : Node.Follows id n (if n.id = id then f n else n) := by
  split
  · next hid => exact ⟨keeps n, fun hne => absurd hid hne⟩
  · exact ⟨rfl, fun _ => rfl⟩

namespace Diagram

variable {node : Node α → Node α → Prop} {edge : Edge α → Edge α → Prop}

theorem varies_map (d : Diagram α) {f : Node α → Node α} {g : Edge α → Edge α}
    (nodes : ∀ n ∈ d.nodes, node n (f n)) (edges : ∀ e ∈ d.edges, edge e (g e)) :
    d.Varies node edge ⟨d.nodes.map f, d.edges.map g⟩ :=
  ⟨List.forall₂_map_right_iff.2 (List.forall₂_same.2 nodes),
    List.forall₂_map_right_iff.2 (List.forall₂_same.2 edges)⟩

theorem varies_self (d : Diagram α) (nodes : ∀ n ∈ d.nodes, node n n)
    (edges : ∀ e ∈ d.edges, edge e e) : d.Varies node edge d :=
  ⟨List.forall₂_same.2 nodes, List.forall₂_same.2 edges⟩

/-- A node changes, and the edges stay. -/
theorem varies_modifyNode (d : Diagram α) (id : NodeId) {f : Node α → Node α}
    (keeps : ∀ n, (f n).id = n.id) :
    d.Varies (Node.Follows id) (Edge.Follows id) (d.modifyNode id f) where
  nodes := List.forall₂_map_right_iff.2 (List.forall₂_same.2 fun n _ => .modify id keeps n)
  edges := List.forall₂_same.2 fun e _ => .refl id e

/-- A node changes, and the edges at it follow. -/
theorem varies_modifyNode_reanchor [Scalar α] (d : Diagram α) (id : NodeId)
    {f : Node α → Node α} (keeps : ∀ n, (f n).id = n.id) :
    d.Varies (Node.Follows id) (Edge.Follows id) ((d.modifyNode id f).reanchor id) := by
  refine d.varies_map (fun n _ => .modify id keeps n) fun e _ => ?_
  exact (d.modifyNode id f).reanchoredEdge_follows id e

/-- An edge changes, and the nodes stay. -/
theorem varies_modifyEdge (d : Diagram α) (id : EdgeId) {f : Edge α → Edge α}
    (changed : ∀ e ∈ d.edges, e.id = id → edge e (f e))
    (same : ∀ e ∈ d.edges, e.id ≠ id → edge e e) : d.Varies Eq edge (d.modifyEdge id f) where
  nodes := List.forall₂_same.2 fun _ _ => rfl
  edges := by
    refine List.forall₂_map_right_iff.2 (List.forall₂_same.2 fun e he => ?_)
    split
    · next hid => exact changed e he hid
    · next hne => exact same e he hne

end Diagram

/-! ## Kinds of operations -/

namespace Operation

/-- The operations that may select an element, or deselect one that stays. -/
def Selects : Operation α → Prop
  | .createNode .. | .select _ | .click .. | .clearSelection => True
  | _ => False

/-- The operations that may take elements away. -/
def Removes : Operation α → Prop
  | .deleteNode _ | .deleteEdge _ | .clear => True
  | _ => False

end Operation

namespace Canvas

variable {c c' : Canvas α} {operation : Operation α}

/-! ## The same selection -/

/-- The same element is selected, and no element has gone. -/
structure Extends (c c' : Canvas α) : Prop where
  selected : c'.selected = c.selected
  nodes : c.diagram.nodes.map Node.id ⊆ c'.diagram.nodes.map Node.id
  edges : c.diagram.edges.map Edge.id ⊆ c'.diagram.edges.map Edge.id

namespace Extends

theorem refl (c : Canvas α) : Extends c c := ⟨rfl, fun _ h => h, fun _ h => h⟩

theorem trans {c'' : Canvas α} (h : Extends c c') (h' : Extends c' c'') : Extends c c'' :=
  ⟨h'.selected.trans h.selected, fun _ hid => h'.nodes (h.nodes hid),
    fun _ hid => h'.edges (h.edges hid)⟩

theorem of_sameFrame (selected : c'.selected = c.selected)
    (frame : SameFrame c.diagram c'.diagram) : Extends c c' :=
  ⟨selected, fun _ h => frame.nodes ▸ h, fun _ h => frame.edgeIds ▸ h⟩

theorem appendEdge (selected : c'.selected = c.selected) {e : Edge α}
    (diagram : c'.diagram = { c.diagram with edges := c.diagram.edges ++ [e] }) :
    Extends c c' := by
  refine ⟨selected, ?_, ?_⟩
  · rw [diagram]
    exact fun _ h => h
  · rw [diagram, List.map_append]
    exact List.subset_append_left _ _

theorem describes (h : Extends c c') {element : ElementRef}
    (there : (c.diagram.describe? element).isSome) : (c'.diagram.describe? element).isSome :=
  Diagram.isSome_describe?_of_subset there h.nodes h.edges

theorem modifyEdge (selected : c'.selected = c.selected) {id : EdgeId} {f : Edge α → Edge α}
    (diagram : c'.diagram = c.diagram.modifyEdge id f) (keeps : ∀ e, (f e).id = e.id) :
    Extends c c' := by
  refine ⟨selected, ?_, ?_⟩
  · rw [diagram]
    exact fun _ h => h
  · rw [diagram, c.diagram.map_modifyEdge id fun e _ _ => keeps e]
    exact fun _ h => h

end Extends

theorem WellFormed.selected_of_extends (h : c.WellFormed) (kept : Extends c c') :
    c'.selected = c.selected.filter (· ∈ c'.elements) := by
  rw [kept.selected]
  symm
  apply selected_filter_eq_self
  intro element hselected
  have hmem := h.mem_elements_of_selected hselected
  exact mem_elements_iff.2 (kept.describes (mem_elements_iff.1 hmem))

/-! ## What is left alone -/

/-- What an operation that makes `c'` of `c` leaves alone. A click is the operation that it stands
    for (`perform_click`). -/
def Spares (c c' : Canvas α) : Operation α → Prop
  | .updateNode id _ | .assignNode id _ _ _ | .moveNode id _ | .inferClass id _ _
  | .setClass id _ =>
    c.diagram.Varies (Node.Follows id) (Edge.Follows id) c'.diagram
  | .setOptional id value =>
    c.diagram.Varies
      (fun n n' => n' = { n with
        isOptional := if (c.edge? id).any (·.touches n.id) then value else n.isOptional })
      (fun e e' => e' = { e with isOptional := if e.id = id then value else e.isOptional })
      c'.diagram
  | .createNode _ _ _ | .startEdge _ _ | .connect _ _ _ =>
    ∃ nodes edges, c'.diagram = ⟨c.diagram.nodes ++ nodes, c.diagram.edges ++ edges⟩ ∧
      nodes.length + edges.length ≤ 1
  | .completeEdge _ | .followPointer _ =>
    c.diagram.Varies Eq (Edge.Drawn c.diagram.incompleteEdge?) c'.diagram
  | .updateEdge id _ => c.diagram.Varies Eq (Edge.Relabelled id) c'.diagram
  | .deleteNode _ | .deleteEdge _ | .clear =>
    c'.diagram.nodes.Sublist c.diagram.nodes ∧ c'.diagram.edges.Sublist c.diagram.edges
  | .select _ | .clearSelection | .setMode _ | .validate => c'.diagram = c.diagram
  | .click _ _ => True

/-- An operation that changes nothing leaves all alone, unless it is to mark something. -/
theorem spares_of_unchanged (operation : Operation α) (unchanged : c'.diagram = c.diagram)
    (unmarked : ∀ id value, operation = .setOptional id value →
      c.edge? id = none) : Spares c c' operation := by
  have hfollows : ∀ id, c.diagram.Varies (Node.Follows id) (Edge.Follows id) c'.diagram := by
    intro id
    rw [unchanged]
    exact c.diagram.varies_self (fun _ _ => ⟨rfl, fun _ => rfl⟩) fun e _ => .refl id e
  have hdrawn : c.diagram.Varies Eq (Edge.Drawn c.diagram.incompleteEdge?) c'.diagram := by
    rw [unchanged]
    exact c.diagram.varies_self (fun _ _ => rfl) fun _ _ => ⟨rfl, fun _ => rfl⟩
  have happends : ∃ nodes edges, c'.diagram =
      ⟨c.diagram.nodes ++ nodes, c.diagram.edges ++ edges⟩ ∧ nodes.length + edges.length ≤ 1 :=
    ⟨[], [], by simp [unchanged], Nat.zero_le 1⟩
  have hremoves : c'.diagram.nodes.Sublist c.diagram.nodes ∧
      c'.diagram.edges.Sublist c.diagram.edges := by
    rw [unchanged]
    exact ⟨.refl _, .refl _⟩
  cases operation with
  | updateNode id | assignNode id | moveNode id | inferClass id | setClass id => exact hfollows id
  | createNode | startEdge | connect => exact happends
  | completeEdge | followPointer => exact hdrawn
  | updateEdge id =>
    simp only [Spares, unchanged]
    exact c.diagram.varies_self (fun _ _ => rfl) fun _ _ => ⟨rfl, fun _ => rfl⟩
  | deleteNode | deleteEdge | clear => exact hremoves
  | select | clearSelection | setMode | validate => exact unchanged
  | click => trivial
  | setOptional id value =>
    -- an edge that is not there marks nothing
    have hnone := unmarked id value rfl
    simp only [Spares, unchanged, hnone]
    refine c.diagram.varies_self (fun _ _ => rfl) fun e he => ?_
    have hne : e.id ≠ id := by simpa using List.find?_eq_none.1 hnone e he
    rw [if_neg hne]

/-- The edge that is being drawn changes, and no other. -/
theorem WellFormed.varies_drawn (h : c.WellFormed) {e : Edge α}
    (drawn : c.diagram.incompleteEdge? = some e) {f : Edge α → Edge α}
    (keeps : ∀ e, (f e).id = e.id) :
    c.diagram.Varies Eq (Edge.Drawn c.diagram.incompleteEdge?) (c.diagram.modifyEdge e.id f) := by
  have hmem := (Diagram.mem_of_incompleteEdge? drawn).1
  refine c.diagram.varies_modifyEdge e.id (fun x hx hid => ⟨keeps x, fun hother => ?_⟩) ?_
  · rw [h.edge_unique hx hmem hid] at hother
    exact absurd drawn hother
  · exact fun _ _ _ => ⟨rfl, fun _ => rfl⟩

/-- A mark goes to the edge and to the nodes at its ends, and nowhere else. -/
theorem WellFormed.spares_setOptional (h : c.WellFormed) (id : EdgeId) (value : Bool) :
    Spares c (c.setOptional id value).1 (.setOptional id value) := by
  cases found : c.edge? id with
  | none =>
    have hrefused : (c.setOptional id value).1 = c := by simp [setOptional, found]
    rw [hrefused]
    refine spares_of_unchanged _ rfl fun id' value' hsame => ?_
    cases hsame
    exact found
  | some e =>
    obtain ⟨feed, hset⟩ := h.setOptional_eq found value
    rw [hset]
    simp only [Spares, found]
    refine c.diagram.varies_map (fun n _ => ?_) fun x _ => ?_
    · have hmarked : e.nodes.contains n.id = e.touches n.id := by
        rw [Bool.eq_iff_iff, List.contains_iff_mem, Edge.mem_nodes_iff]
      rw [hmarked, Option.any_some]
      cases e.touches n.id <;> rfl
    · split <;> rfl

variable [Scalar α]

/-- What each step leaves alone. -/
theorem WellFormed.spares_step (h : c.WellFormed) (hstep : Step c operation c')
    (marks : ∀ id value, operation ≠ .setOptional id value) : Spares c c' operation := by
  cases hstep with
  | quiet operation feed =>
    exact spares_of_unchanged operation rfl fun id value hsame => absurd hsame (marks id value)
  | createNode position kind content selected feed kept =>
    exact ⟨[c.freshNode position kind content], [], by simp, Nat.le_refl 1⟩
  | @updateNode id n content feed found =>
    refine c.diagram.varies_modifyNode_reanchor id ?_
    exact fun _ => rfl
  | @assignNode id n kind content inferredClass feed found =>
    refine c.diagram.varies_modifyNode_reanchor id ?_
    exact fun _ => rfl
  | @inferClass id n label merged feed found inferable =>
    refine c.diagram.varies_modifyNode id ?_
    exact fun _ => rfl
  | @setClass id n inferredClass feed found =>
    refine c.diagram.varies_modifyNode id ?_
    exact fun _ => rfl
  | @moveNode id n position feed found =>
    refine c.diagram.varies_modifyNode_reanchor id ?_
    exact fun _ => rfl
  | deleteNode selected feed found kept => exact ⟨List.filter_sublist, List.filter_sublist⟩
  | @startEdge id n content feed found idle =>
    exact ⟨[], [c.drawnEdge n content], by simp, Nat.le_refl 1⟩
  | followPointer pointer feed drawn => exact h.varies_drawn drawn fun _ => rfl
  | completeEdge feed drawn starts subjectFound objectFound crossed =>
    exact h.varies_drawn drawn fun _ => rfl
  | @connect subject object content feed subjectFound objectFound =>
    exact ⟨[], [c.joiningEdge subject object content], by simp, Nat.le_refl 1⟩
  | @updateEdge id e content feed found =>
    refine c.diagram.varies_modifyEdge id (fun x _ hid => ⟨rfl, fun hne => absurd hid hne⟩) ?_
    exact fun _ _ _ => ⟨rfl, fun _ => rfl⟩
  | setOptional value feed found => exact absurd rfl (marks _ value)
  | deleteEdge selected feed found kept => exact ⟨.refl _, List.filter_sublist⟩
  | clear feed => exact ⟨List.nil_sublist _, List.nil_sublist _⟩
  | select | clearSelection | setMode => rfl
  | click => trivial

theorem WellFormed.spares_perform (h : c.WellFormed) (operation : Operation α) :
    Spares c (c.perform operation).1 operation := by
  have hstep := h.spares_step (step_perform c operation)
  cases operation with
  | setOptional id value => exact h.spares_setOptional id value
  | _ => exact hstep nofun

/-! ## What stays selected -/

/-- All operations but those that select or remove keep the selection and all elements. -/
theorem extends_perform (c : Canvas α) (selects : ¬ operation.Selects)
    (removes : ¬ operation.Removes) : Extends c (c.perform operation).1 := by
  -- what neither selects nor removes keeps the frame, changes one edge or appends one
  have hstep := step_perform c operation
  generalize (c.perform operation).1 = c' at hstep
  cases hstep with
  | quiet operation feed => exact .of_sameFrame rfl (.refl _)
  | updateNode content feed found =>
    refine .of_sameFrame rfl ?_
    exact .modifyNode_reanchor _ _ fun _ => rfl
  | assignNode kind content inferredClass feed found =>
    refine .of_sameFrame rfl ?_
    exact .modifyNode_reanchor _ _ fun _ => rfl
  | inferClass label merged feed found inferable =>
    refine .of_sameFrame rfl ?_
    exact .modifyNode _ _ fun _ => rfl
  | setClass inferredClass feed found =>
    refine .of_sameFrame rfl ?_
    exact .modifyNode _ _ fun _ => rfl
  | moveNode position feed found =>
    refine .of_sameFrame rfl ?_
    exact .modifyNode_reanchor _ _ fun _ => rfl
  | startEdge content feed found idle => exact .appendEdge rfl rfl
  | connect content feed subjectFound objectFound => exact .appendEdge rfl rfl
  | followPointer pointer feed drawn => exact .modifyEdge rfl rfl fun _ => rfl
  | completeEdge feed drawn starts subjectFound objectFound crossed =>
    exact .modifyEdge rfl rfl fun _ => rfl
  | updateEdge content feed found => exact .modifyEdge rfl rfl fun _ => rfl
  | @setOptional id e value feed found =>
    exact .of_sameFrame rfl (.mark c.diagram id value e.nodes)
  | setMode mode => exact .of_sameFrame rfl (.refl _)
  | createNode | select | clearSelection | click => exact absurd trivial selects
  | deleteNode | deleteEdge | clear => exact absurd trivial removes

/-- Without selecting, the selection changes only by going with the selected element. -/
theorem WellFormed.selected_perform (h : c.WellFormed) (selects : ¬ operation.Selects) :
    (c.perform operation).1.selected =
      c.selected.filter (· ∈ (c.perform operation).1.elements) := by
  cases operation with
  | deleteNode id =>
    cases there : (c.node? id).isSome with
    | true =>
      obtain ⟨feed, hdelete⟩ := h.deleteNode_eq there
      show (c.deleteNode id).1.selected = c.selected.filter (· ∈ (c.deleteNode id).1.elements)
      rw [hdelete]
      rfl
    -- the deletion is refused
    | false =>
      have hnone : c.node? id = none := by simpa using there
      have hrefused : (c.perform (.deleteNode id)).1 = c := by
        show (c.deleteNode id).1 = c
        simp [deleteNode, hnone]
      rw [hrefused]
      exact h.selected_of_extends (.refl c)
  | deleteEdge id => exact h.selected_deleteEdge id
  | clear => exact c.selected_clear
  | _ => exact h.selected_of_extends (c.extends_perform selects id)

/-! ## Every canvas -/

/-- An operation changes only what it is about. It leaves the selection where it was, unless it
    selects or takes the selected element away. -/
theorem Reachable.changes_stay_local {allowed : Operation α → Prop} {sizes : ShapeSizes α}
    (reached : Reachable allowed sizes c) (operation : Operation α) :
    Spares c (c.perform operation).1 operation ∧
      (¬ operation.Selects → (c.perform operation).1.selected =
        c.selected.filter (· ∈ (c.perform operation).1.elements)) :=
  ⟨reached.wellFormed.spares_perform operation, reached.wellFormed.selected_perform⟩

theorem changes_stay_local_sketch :
    sketch.diagram.Varies (Node.Follows ⟨1⟩) (Edge.Follows ⟨1⟩)
        (sketch.perform (.moveNode ⟨1⟩ ⟨50, 80⟩)).1.diagram ∧
      (sketch.perform (.deleteNode ⟨1⟩)).1.selected = some (.node ⟨2⟩) ∧
      (sketch.perform (.deleteNode ⟨2⟩)).1.selected = none := by
  have hlocal := Reachable.changes_stay_local reachable_sketch
  refine ⟨(hlocal (.moveNode ⟨1⟩ ⟨50, 80⟩)).1, ?_, ?_⟩
  · rw [(hlocal (.deleteNode ⟨1⟩)).2 id]
    rfl
  · rw [(hlocal (.deleteNode ⟨2⟩)).2 id]
    rfl

end Canvas

end QueryCanvas
