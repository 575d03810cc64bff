/-
  QueryCanvas.Proofs.Sparql.Reference

  What any diagram compiles to, also one whose identities repeat and whose edges
  lead nowhere, written down without dictionaries.

  A dictionary of fragments is read as a search from the end of the list
  (`Dict.get?_ofPairs`): an identity has the text of the last element that bears
  it. Collecting outputs keeps the first of equal texts (`foldl_addOutput`), and
  writing the patterns stops at the first edge with a broken end
  (`mapM_eq_findSome?`).
-/

import Mathlib.Data.List.Induction
import QueryCanvas.Proofs.Sparql.Select

namespace QueryCanvas

variable {α : Type}

/-! ## The reference -/

namespace Diagram

open Sparql

/-- The last node with the given identity. -/
def lastNode? (d : Diagram α) (id : NodeId) : Option (Node α) := d.nodes.reverse.find? (·.id = id)

/-- The last edge with the given identity. -/
def lastEdge? (d : Diagram α) (id : EdgeId) : Option (Edge α) := d.edges.reverse.find? (·.id = id)

/-- The texts of the listed elements whose last occurrence is selected, nodes before edges. -/
def selectedTexts (d : Diagram α) (p : PrefixTable) : List String :=
  ((d.nodes.filterMap fun n => d.lastNode? n.id).filter (·.isSelected)).map
      (fun n => (nodeFragment n p).text) ++
    ((d.edges.filterMap fun e => d.lastEdge? e.id).filter (·.isSelected)).map
      (fun e => (edgeFragment e p).text)

/-- The node that an end names although there is none; node zero if the end is free. -/
def missingNode? (d : Diagram α) (endpoint : Endpoint α) : Option NodeId :=
  match endpoint.node? with
  | some node => if d.nodes.any (·.id = node) then none else some node
  | none => some ⟨0⟩

/-- What is missing at the ends of an edge. The subject is looked at first. -/
def missingEnd? (d : Diagram α) (e : Edge α) : Option NodeId :=
  (d.missingNode? e.subject).or (d.missingNode? e.object)

/-- The first complete edge that leads nowhere, and the node that it misses. -/
def brokenEdge? (d : Diagram α) : Option (EdgeId × NodeId) :=
  (d.edges.filter (·.complete)).findSome? fun e => (d.missingEnd? e).map (e.id, ·)

/-- The text at an end of an edge: that of the last node that the end names. -/
def endText (d : Diagram α) (p : PrefixTable) (endpoint : Endpoint α) : String :=
  ((endpoint.node?.bind d.lastNode?).map fun n => (nodeFragment n p).text).getD ""

/-- The text of the last edge with the identity. -/
def propertyText (d : Diagram α) (p : PrefixTable) (edge : EdgeId) : String :=
  ((d.lastEdge? edge).map fun e => (edgeFragment e p).text).getD ""

/-- The line for a complete edge. -/
def line (d : Diagram α) (p : PrefixTable) (e : Edge α) : String :=
  let triple := d.endText p e.subject ++ " " ++ d.propertyText p e.id ++ " " ++
    d.endText p e.object ++ " ."
  if e.isOptional then "  OPTIONAL \x7b " ++ triple ++ " \x7d\n" else "  " ++ triple ++ "\n"

/-- What the diagram ought to compile to. -/
def reference (d : Diagram α) (p : PrefixTable) : Except CompileError String :=
  if d.selectedTexts p = [] then .error .noOutputs
  else
    match d.brokenEdge? with
    | some (edge, node) => .error (.danglingEdge edge node)
    | none =>
      .ok ("SELECT " ++ String.join ((d.selectedTexts p).eraseDups.map (· ++ " ")) ++ "\n" ++
        "WHERE \x7b\n" ++ String.join ((d.edges.filter (·.complete)).map (d.line p)) ++ "\x7d\n\n")

end Diagram

/-! ## Reading dictionaries -/

/-- Of the pairs with one key the last is found. -/
theorem Dict.get?_ofPairs {κ ν : Type} [DecidableEq κ] (l : List (κ × ν)) (k : κ) :
    (ofPairs l).get? k = (l.reverse.find? (·.1 = k)).map Prod.snd := by
  induction l using List.reverseRecOn with
  | nil => rfl
  | append_singleton l e ih =>
    rw [ofPairs, List.foldl_append, ← ofPairs]
    show ((ofPairs l).insert e.1 e.2).get? k = _
    rw [get?_insert, List.reverse_append, List.reverse_singleton, List.singleton_append,
      List.find?_cons, ih]
    by_cases hkey : e.1 = k
    · simp [hkey]
    · simp [hkey]

namespace Sparql

variable (d : Diagram α) (p : PrefixTable)

theorem get?_nodes_eq (id : NodeId) :
    (Fragments.of d p).nodes.get? id = (d.lastNode? id).map (nodeFragment · p) := by
  rw [Fragments.of, Dict.get?_ofPairs, ← List.map_reverse, List.find?_map, Option.map_map]
  rfl

theorem get?_edges_eq (id : EdgeId) :
    (Fragments.of d p).edges.get? id = (d.lastEdge? id).map (edgeFragment · p) := by
  rw [Fragments.of, Dict.get?_ofPairs, ← List.map_reverse, List.find?_map, Option.map_map]
  rfl

/-! ## Outputs -/

/-- The outputs of any diagram, without dictionaries. -/
theorem outputs_eq : outputs d (Fragments.of d p) = (d.selectedTexts p).eraseDups := by
  have hnodes : (d.nodes.filterMap fun n => (Fragments.of d p).nodes.get? n.id) =
      (d.nodes.filterMap fun n => d.lastNode? n.id).map (nodeFragment · p) := by
    rw [List.map_filterMap]
    exact List.filterMap_congr fun n _ => get?_nodes_eq d p n.id
  have hedges : (d.edges.filterMap fun e => (Fragments.of d p).edges.get? e.id) =
      (d.edges.filterMap fun e => d.lastEdge? e.id).map (edgeFragment · p) := by
    rw [List.map_filterMap]
    exact List.filterMap_congr fun e _ => get?_edges_eq d p e.id
  have hselected : (((d.nodes.filterMap fun n => d.lastNode? n.id).map (nodeFragment · p) ++
      (d.edges.filterMap fun e => d.lastEdge? e.id).map (edgeFragment · p)).filter
        (·.selected)).map Fragment.text = d.selectedTexts p := by
    simp only [List.filter_append, List.filter_map, List.map_append, List.map_map,
      Function.comp_def, nodeFragment_selected, edgeFragment_selected, Diagram.selectedTexts]
  simp only [outputs, hnodes, hedges, hselected, foldl_addOutput]
  simp

/-! ## Patterns -/

/-- An end has the text of the node that it names, or misses it. -/
theorem endText_eq (edge : EdgeId) (endpoint : Endpoint α) :
    endText (Fragments.of d p) edge endpoint.node? =
      (d.missingNode? endpoint).elim (.ok (d.endText p endpoint))
        fun node => .error (.danglingEdge edge node) := by
  cases hend : endpoint.node? with
  | none => simp [endText, Diagram.missingNode?, hend]
  | some node =>
    have hexists : (d.nodes.any fun n => n.id = node) = (d.lastNode? node).isSome := by
      rw [Diagram.lastNode?, List.isSome_find?, List.any_reverse]
    rw [endText, Option.bind_some, get?_nodes_eq]
    simp only [Diagram.missingNode?, Diagram.endText, hend, hexists, Option.bind_some]
    cases d.lastNode? node <;> rfl

/-- What a complete edge adds to the query if nothing is missing at its ends. -/
def referencePattern (e : Edge α) : Pattern :=
  ⟨d.endText p e.subject, d.propertyText p e.id, d.endText p e.object, e.isOptional⟩

theorem edgePattern_eq {e : Edge α} (he : e ∈ d.edges) :
    edgePattern (Fragments.of d p) e =
      ((d.missingEnd? e).map fun node => .danglingEdge e.id node).elim
        (.ok (referencePattern d p e)) .error := by
  -- an edge that is listed bears its own identity, so that there is a last one
  obtain ⟨last, hlast⟩ : ∃ last, d.lastEdge? e.id = some last := by
    rw [← Option.isSome_iff_exists, Diagram.lastEdge?, List.find?_isSome]
    exact ⟨e, List.mem_reverse.2 he, by simp⟩
  have hproperty : ((Fragments.of d p).edges.get? e.id).map Fragment.text =
      some (d.propertyText p e.id) := by
    rw [get?_edges_eq, Diagram.propertyText, hlast]
    rfl
  rw [edgePattern, endText_eq, endText_eq, hproperty, Diagram.missingEnd?]
  cases d.missingNode? e.subject with
  | some node => rfl
  | none => cases d.missingNode? e.object <;> rfl

theorem patterns_eq :
    (d.edges.filter (·.complete)).mapM (edgePattern (Fragments.of d p)) =
      (d.brokenEdge?.map fun broken => .danglingEdge broken.1 broken.2).elim
        (.ok ((d.edges.filter (·.complete)).map (referencePattern d p))) .error := by
  rw [mapM_eq_findSome? fun e he => edgePattern_eq d p (List.mem_filter.1 he).1,
    Diagram.brokenEdge?, List.map_findSome?]
  simp only [Function.comp_def, Option.map_map]

end Sparql

/-! ## Compiling -/

namespace Diagram

variable (d : Diagram α) (p : PrefixTable)

/-- The text of a query with the outputs and patterns of the reference. -/
theorem text_eq (outputs : List String) (edges : List (Edge α)) :
    (⟨outputs, edges.map (Sparql.referencePattern d p)⟩ : Sparql.Select).text =
      "SELECT " ++ String.join (outputs.map (· ++ " ")) ++ "\n" ++
        "WHERE \x7b\n" ++ String.join (edges.map (d.line p)) ++ "\x7d\n\n" := by
  have hopening : ("\nWHERE \x7b\n" : String) = "\n" ++ "WHERE \x7b\n" := rfl
  have hclosing : ("\x7d\n\n" : String) = "\x7d\n" ++ "\n" := rfl
  have hlines : (edges.map (Sparql.referencePattern d p)).map Sparql.Pattern.text =
      edges.map (d.line p) := List.map_map
  rw [Sparql.Select.text, hlines, hopening, hclosing]
  simp only [String.append_assoc]

/-- Compiling is what the reference says, whatever the diagram and whatever is known of
    prefixes. -/
theorem compile_eq_reference : d.compile p = d.reference p := by
  rw [compile, Sparql.select, Sparql.outputs_eq, Sparql.patterns_eq, reference]
  -- a query without outputs is refused before any end is looked at
  cases htexts : d.selectedTexts p with
  | nil => rfl
  | cons text rest =>
    rw [if_neg (List.cons_ne_nil _ _), ← htexts]
    have hsome : (d.selectedTexts p).eraseDups.isEmpty = false := by
      rw [htexts, List.eraseDups_cons]
      rfl
    rw [hsome, if_neg Bool.false_ne_true]
    cases d.brokenEdge? with
    | some broken => rfl
    | none => exact congrArg Except.ok (d.text_eq p _ _)

-- the node that is listed twice is no output, since its last occurrence is an IRI
example :
    let node (id : Nat) (kind : NodeKind) (content : String) : Node Nat :=
      ⟨⟨id⟩, kind, content, ⟨0, 0⟩, ⟨⟨0, 0⟩, 0, 0, 0⟩, false, none⟩
    let met : Edge Nat := ⟨⟨1⟩, .boundProperty, "<met>", .anchored ⟨2⟩ ⟨0, 0⟩,
      .anchored ⟨1⟩ ⟨0, 0⟩, false, true⟩
    (⟨[node 1 .selectedVariable "?x", node 2 .selectedVariable "?y", node 1 .uri "<one>"],
        [met]⟩ : Diagram Nat).compile (.new "") =
      .ok "SELECT ?y \nWHERE \x7b\n  ?y <met> <one> .\n\x7d\n\n" := by
  rfl

end Diagram

end QueryCanvas
