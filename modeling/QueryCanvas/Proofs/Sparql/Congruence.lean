/-
  QueryCanvas.Proofs.Sparql.Congruence

  What a query depends on: of each node its identity and its text, of each edge
  its frame, its text and its mark, all in order. This holds for every diagram,
  also for one with repeated identities or dangling edges. Where two diagrams
  agree on these, they are the same query or fail in the same way.
-/

import QueryCanvas.Proofs.Diagram.Frame
import QueryCanvas.Sparql.Select

namespace QueryCanvas

namespace Sparql

variable {α : Type} {d d' : Diagram α} {p p' : PrefixTable}

/-! ## Views -/

/-- What a query takes from a node. -/
def nodeView (p : PrefixTable) (n : Node α) : NodeId × Fragment := (n.id, nodeFragment n p)

/-- What a query takes from an edge. -/
def edgeView (p : PrefixTable) (e : Edge α) : EdgeFrame × Fragment × Bool :=
  (e.frame, edgeFragment e p, e.isOptional)

/-- The pattern of an edge is made of what is taken from it. -/
def viewPattern (fragments : Fragments) (view : EdgeFrame × Fragment × Bool) :
    Except CompileError Pattern := do
  let subject ← endText fragments view.1.id view.1.subject
  let object ← endText fragments view.1.id view.1.object
  let property := ((fragments.edges.get? view.1.id).map Fragment.text).getD anonymous
  pure ⟨subject, property, object, view.2.2⟩

theorem Fragments.of_congr (nodes : d'.nodes.map (nodeView p') = d.nodes.map (nodeView p))
    (edges : d'.edges.map (edgeView p') = d.edges.map (edgeView p)) :
    Fragments.of d' p' = Fragments.of d p := by
  have hnodes : d'.nodes.map (fun n => (n.id, nodeFragment n p')) =
      d.nodes.map fun n => (n.id, nodeFragment n p) := nodes
  have hedges : d'.edges.map (fun e => (e.id, edgeFragment e p')) =
      d.edges.map fun e => (e.id, edgeFragment e p) := by
    have hpairs := congrArg (List.map fun view => (view.1.id, view.2.1)) edges
    rwa [List.map_map, List.map_map] at hpairs
  rw [of, of, hnodes, hedges]

theorem outputs_congr (nodes : d'.nodes.map (nodeView p') = d.nodes.map (nodeView p))
    (edges : d'.edges.map (edgeView p') = d.edges.map (edgeView p)) (fragments : Fragments) :
    outputs d' fragments = outputs d fragments := by
  have hviews : ∀ (d : Diagram α) (p : PrefixTable), outputs d fragments =
      ((((d.nodes.map (nodeView p)).filterMap (fragments.nodes.get? ·.1) ++
        (d.edges.map (edgeView p)).filterMap (fragments.edges.get? ·.1.id)).filter
          (·.selected)).map Fragment.text).foldl addOutput [] := by
    intro d p
    rw [List.filterMap_map, List.filterMap_map]
    rfl
  rw [hviews d' p', hviews d p, nodes, edges]

theorem patterns_congr (edges : d'.edges.map (edgeView p') = d.edges.map (edgeView p))
    (fragments : Fragments) :
    (d'.edges.filter (·.complete)).mapM (edgePattern fragments) =
      (d.edges.filter (·.complete)).mapM (edgePattern fragments) := by
  have hviews : ∀ (d : Diagram α) (p : PrefixTable),
      (d.edges.filter (·.complete)).mapM (edgePattern fragments) =
        ((d.edges.map (edgeView p)).filter (·.1.complete)).mapM (viewPattern fragments) := by
    intro d p
    rw [List.filter_map, List.mapM_map]
    rfl
  rw [hviews d' p', hviews d p, edges]

/-- Diagrams of which the same is taken are the same query. -/
theorem select_congr (nodes : d'.nodes.map (nodeView p') = d.nodes.map (nodeView p))
    (edges : d'.edges.map (edgeView p') = d.edges.map (edgeView p)) :
    select d' p' = select d p := by
  simp only [select, Fragments.of_congr nodes edges, outputs_congr nodes edges,
    patterns_congr edges]

/-! ## Prefixes -/

/-- Of the prefixes only their owners count. -/
theorem renderIri_congr (owners : ∀ short, p'.expansionOf? short = p.expansionOf? short)
    (content : String) : renderIri content p' = renderIri content p := by
  simp only [renderIri, owners]

theorem nodeView_congr (owners : ∀ short, p'.expansionOf? short = p.expansionOf? short) :
    nodeView (α := α) p' = nodeView p := by
  funext n
  simp only [nodeView, nodeFragment, renderIri_congr owners]

theorem edgeView_congr (owners : ∀ short, p'.expansionOf? short = p.expansionOf? short) :
    edgeView (α := α) p' = edgeView p := by
  funext e
  simp only [edgeView, edgeFragment, renderIri_congr owners]

/-! ## Anonymous nodes -/

/-- Whichever kind it has, an anonymous node is a variable named after its number. -/
theorem nodeFragment_of_inferable {n : Node α} (inferable : n.kind.isInferable)
    (content : n.content = anonymous) (p : PrefixTable) :
    nodeFragment n p = ⟨"?node" ++ toString n.id.index, false⟩ := by
  have hname : "?" ++ "node" = "?node" := by decide
  cases hkind : n.kind with
  | unboundVariable =>
    simp [nodeFragment, hkind, variableName, content, Node.isSelected, hname]
  | amalgam => simp [nodeFragment, hkind]
  | _ => simp [hkind, NodeKind.isInferable] at inferable

end Sparql

/-- Diagrams of which the same is taken compile to the same text, or to the same error. -/
theorem Diagram.compile_congr {α : Type} {d d' : Diagram α} {p p' : PrefixTable}
    (nodes : d'.nodes.map (Sparql.nodeView p') = d.nodes.map (Sparql.nodeView p))
    (edges : d'.edges.map (Sparql.edgeView p') = d.edges.map (Sparql.edgeView p)) :
    d'.compile p' = d.compile p := by
  rw [compile, Sparql.select_congr nodes edges, compile]

end QueryCanvas
