/-
  QueryCanvas.Proofs.Session.Independence

  The ontology suggests, and it classifies what the user has drawn, but it never
  changes the query.

  Loading does three things that could reach the query. It asks for prefixes,
  but a prefix that is only asked for has no owner, and names are read back by
  owners. It switches nodes between the two anonymous kinds, which have the same
  text while they show nothing but a question mark. And it forgets and infers
  anew, which concerns the classes only, and these are no part of a query.
-/

import QueryCanvas.Proofs.Canvas.Content
import QueryCanvas.Proofs.Session.Inference
import QueryCanvas.Proofs.Session.Vocabulary
import QueryCanvas.Proofs.Sparql.Congruence

namespace QueryCanvas

open Sparql (anonymous nodeView edgeView)

/-! ## Anonymous nodes show nothing -/

/-- A node of an anonymous kind shows a question mark only. -/
def NodeKind.IsUnnamed (kind : NodeKind) (content : String) : Prop :=
  kind.isInferable = true → content = anonymous

/-- Of the kinds that are read off a content, only that of the question mark is anonymous. -/
theorem NodeKind.isUnnamed_isRule : NodeKind.IsRule NodeKind.IsUnnamed where
  found content inferable := by
    unfold ofContent at inferable
    repeat' split at inferable
    all_goals first | assumption | cases inferable
  inferred h inferable _ _ := h inferable

/-- The operations that give an anonymous node no other content than the question mark. -/
def Operation.LeavesUnnamed {α : Type} (operation : Operation α) : Prop :=
  operation.Keeps NodeKind.IsUnnamed

namespace Session

variable {s : Session}

theorem leavesUnnamed_of_own {operation : Operation Float} (h : Own operation) :
    operation.LeavesUnnamed := by
  cases h with
  | place position => exact fun _ => rfl
  | assignDatatype node label => exact fun inferable => by cases inferable
  | assignClass node content => exact fun inferable => by cases inferable
  | _ => trivial

/-! ## What leaves the query alone -/

/-- Sessions with the same diagram, and with the same owners of prefixes, have the same query. -/
theorem compile_congr {s s' : Session} (diagram : s'.canvas.diagram = s.canvas.diagram)
    (owners : ∀ short, s'.prefixes.expansionOf? short = s.prefixes.expansionOf? short) :
    s'.compile = s.compile := by
  have hcompile : s'.canvas.diagram.compile s'.prefixes =
      s.canvas.diagram.compile s.prefixes := by
    rw [diagram]
    refine Diagram.compile_congr ?_ ?_
    · rw [Sparql.nodeView_congr owners]
    · rw [Sparql.edgeView_congr owners]
  rw [compile, hcompile, compile]

/-- The class that is decided for an unnamed node is not seen in the query. -/
theorem nodeView_classify (wf : s.canvas.WellFormed)
    (unnamed : s.canvas.Obeys NodeKind.IsUnnamed) {n : Node Float}
    (hn : n ∈ s.canvas.diagram.nodes) (p : PrefixTable) :
    nodeView p (n.decided (s.ontology.verdict? s.targets n.id) s.canvas.sizes) = nodeView p n := by
  cases hverdict : s.ontology.verdict? s.targets n.id with
  | none => rfl
  | some cls =>
    -- an edge was due for the node, so it is anonymous
    obtain ⟨target, hmem, hid, -⟩ := Ontology.exists_target_of_verdict? hverdict
    obtain ⟨m, hm, hinferable⟩ := found_of_mem_targets hmem
    obtain rfl : n = m := wf.eq_of_node? hn hid.symm hm
    have hcontent := unnamed n hn hinferable
    rw [nodeView, nodeView, Sparql.nodeFragment_of_inferable hinferable hcontent,
      Sparql.nodeFragment_of_inferable (Node.isInferable_decided hinferable _)
        ((n.content_decided _).trans hcontent), Node.id_decided]

/-- Catching up with the canvas leaves the query as it is. -/
theorem compile_sync (wf : s.canvas.WellFormed) (unnamed : s.canvas.Obeys NodeKind.IsUnnamed) :
    s.sync.compile = s.compile := by
  have hprefixes : s.sync.prefixes = s.prefixes :=
    (KeepsTerms.of_proceeds (.sync s)).prefixes
  have hnodes : (s.classify s.targets).nodes.map (nodeView s.prefixes) =
      s.canvas.diagram.nodes.map (nodeView s.prefixes) := by
    rw [classify, List.map_map]
    exact List.map_congr_left fun n hn => nodeView_classify wf unnamed hn _
  rw [compile, sync_diagram, hprefixes, Diagram.compile_congr hnodes rfl, compile]

/-- Loading takes no prefix from its owner and gives none away. -/
theorem compile_loaded (s : Session) (bindings : List Binding) :
    (s.loaded bindings).compile = s.compile :=
  compile_congr rfl (s.ontology.index_asked bindings s.prefixes).expansionOf?_eq

theorem compile_refreshSuggestions (s : Session) : s.refreshSuggestions.compile = s.compile := by
  refine compile_congr (by rw [refreshSuggestions_canvas]) fun short => ?_
  rw [(KeepsTerms.of_proceeds (.refreshSuggestions s)).prefixes]

/-! ## Every session -/

variable {answered : String → Prop} {base : String} {sizes : ShapeSizes Float}

/-- While no anonymous node is given a name, the ontology never changes the query. Whatever answer
    to whichever load is finished, the session compiles to what it compiled to before. And after
    every edit, as after every suggestion that is accepted and after the canvas is emptied, it
    compiles to what the canvas shows before any class is inferred. -/
theorem Reachable.ontology_never_changes_query
    (reached : Reachable Operation.LeavesUnnamed answered base sizes s) :
    (∀ ticket fetched, (s.finishLoad ticket fetched).1.compile = s.compile) ∧
      (∀ {β : Type} (change : Canvas Float → Canvas Float × β)
        (operations : List (Operation Float)),
        (∀ operation ∈ operations, operation.LeavesUnnamed) →
        (change s.canvas).1 = s.canvas.run operations →
        (s.edit change).1.compile = { s with canvas := (change s.canvas).1 }.compile) ∧
      (∀ index x, s.suggestion? index = some x →
        (s.acceptSuggestion index).1.compile = (s.place x).1.compile) ∧
      s.clear.compile = { s with canvas := s.canvas.clear }.compile := by
  have own : ∀ operation : Operation Float, Own operation → operation.LeavesUnnamed :=
    fun _ => leavesUnnamed_of_own
  have hcanvas := reached.canvas own
  -- catching up with a canvas that allowed operations lead to
  have hsync : ∀ s' : Session, Canvas.Reachable Operation.LeavesUnnamed sizes s'.canvas →
      s'.sync.compile = s'.compile := by
    intro s' h
    exact compile_sync h.wellFormed (h.obeys NodeKind.isUnnamed_isRule fun _ hkeeps => hkeeps)
  refine ⟨fun ticket fetched => ?_, fun change operations permitted performs => ?_,
    fun index x found => ?_, ?_⟩
  · rcases s.finishLoad_cases ticket fetched with h | ⟨bindings, h⟩
    · rw [h]
    · rw [h, compile_refreshSuggestions, hsync (s.loaded bindings) hcanvas, compile_loaded]
  · exact hsync { s with canvas := (change s.canvas).1 } (performs ▸ hcanvas.run permitted)
  · rw [acceptSuggestion_eq found]
    have hplaced := canvas_place own hcanvas x
    generalize s.place x = placed at hplaced ⊢
    obtain ⟨s', error | accepted⟩ := placed
    · rfl
    · exact hsync { s' with suggestions := s'.suggestions.filter (·.index ≠ index) } hplaced
  · exact hsync { s with canvas := s.canvas.clear, inferred := .empty }
      (hcanvas.perform (own _ .clear))

/-- A session in which an edge leads to an anonymous node before anything is known of its class. -/
def unclassified : Session :=
  ((Session.new "http://base/" defaultSizes).edit fun c =>
    (c.run [.createNode ⟨0, 0⟩ .selectedVariable "?x", .createNode ⟨300, 0⟩ .unboundVariable "?",
      .connect ⟨1⟩ ⟨2⟩ ":wrote"], ())).1.beginLoad.1

theorem reachable_unclassified :
    Reachable Operation.LeavesUnnamed (fun _ => True) "http://base/" defaultSizes unclassified := by
  refine .beginLoad (.edit .new _ ?_ rfl)
  intro operation h
  simp only [List.mem_cons, List.not_mem_nil, or_false] at h
  rcases h with rfl | rfl | rfl
  · exact fun inferable => by cases inferable
  · exact fun _ => rfl
  · trivial

theorem ontology_never_changes_query_unclassified :
    unclassified.canvas.diagram.nodes.map Node.kind = [.selectedVariable, .unboundVariable] ∧
      (unclassified.finishLoad ⟨1⟩ (.ok twoRanges)).1.canvas.diagram.nodes.map Node.kind =
        [.selectedVariable, .amalgam] ∧
      (unclassified.finishLoad ⟨1⟩ (.ok twoRanges)).1.compile = unclassified.compile := by
  obtain ⟨hload, -⟩ := Reachable.ontology_never_changes_query reachable_unclassified
  exact ⟨rfl, rfl, hload ⟨1⟩ (.ok twoRanges)⟩

end Session

end QueryCanvas
