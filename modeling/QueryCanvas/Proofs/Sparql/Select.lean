/-
  QueryCanvas.Proofs.Sparql.Select

  What a diagram with the structural invariant compiles to.

  Compiling goes through dictionaries of fragments by identity. Since no
  identity stands twice, looking an element up there finds its own fragment,
  and since the ends of complete edges exist, every pattern has a text at each
  end. So compiling fails only for the lack of an output, and the query can be
  written down without look-ups that fail.
-/

import QueryCanvas.Proofs.Canvas.Structure
import QueryCanvas.Sparql.Select

namespace QueryCanvas

/-! ## Dictionaries made of pairs -/

namespace Dict

variable {κ ν : Type} [DecidableEq κ]

/-- A pair whose key stands nowhere else is found. -/
theorem get?_ofPairs_of_mem {l : List (κ × ν)} (distinct : (l.map Prod.fst).Nodup) {k : κ} {v : ν}
    (h : (k, v) ∈ l) : (ofPairs l).get? k = some v := by
  refine get?_foldl_insert (fun e he hkey => ?_) (.inr (List.mem_map_of_mem (f := Prod.fst) h))
  rw [List.inj_on_of_nodup_map distinct he h hkey]

end Dict

namespace Sparql

variable {α : Type}

/-! ## Fragments -/

/-- A node is marked as an output exactly if it is selected. -/
theorem nodeFragment_selected (n : Node α) (p : PrefixTable) :
    (nodeFragment n p).selected = n.isSelected := by
  cases hkind : n.kind <;> simp [nodeFragment, Node.isSelected, hkind]

theorem edgeFragment_selected (e : Edge α) (p : PrefixTable) :
    (edgeFragment e p).selected = e.isSelected := by
  cases hkind : e.kind <;> simp [edgeFragment, Edge.isSelected, hkind]

/-- A selected node shows a variable, whatever is known of prefixes. -/
theorem nodeFragment_of_selected {n : Node α} (selected : n.isSelected = true) (p : PrefixTable) :
    nodeFragment n p = ⟨variableName n.content "node" n.id.index, true⟩ := by
  have hkind : n.kind = .selectedVariable := by simpa [Node.isSelected] using selected
  simp [nodeFragment, hkind, selected]

/-- A selected edge is a property variable with a name. -/
theorem named_of_isSelected {e : Edge α} (selected : e.isSelected = true) :
    e.kind = .unboundProperty ∧ e.content ≠ anonymous := by
  obtain ⟨hkind, hlong⟩ : e.kind = .unboundProperty ∧ 1 < e.content.utf8ByteSize := by
    simpa [Edge.isSelected] using selected
  refine ⟨hkind, fun hcontent => ?_⟩
  rw [hcontent] at hlong
  exact absurd hlong (by decide)

theorem edgeFragment_of_selected {e : Edge α} (selected : e.isSelected = true) (p : PrefixTable) :
    edgeFragment e p = ⟨e.content, true⟩ := by
  obtain ⟨hkind, hnamed⟩ := named_of_isSelected selected
  simp [edgeFragment, hkind, variableName, hnamed, selected]

theorem get?_nodes {d : Diagram α} (distinct : (d.nodes.map Node.id).Nodup) {n : Node α}
    (h : n ∈ d.nodes) (p : PrefixTable) :
    (Fragments.of d p).nodes.get? n.id = some (nodeFragment n p) := by
  refine Dict.get?_ofPairs_of_mem ?_ (List.mem_map.2 ⟨n, h, rfl⟩)
  rw [List.map_map]
  exact distinct

theorem get?_edges {d : Diagram α} (distinct : (d.edges.map Edge.id).Nodup) {e : Edge α}
    (h : e ∈ d.edges) (p : PrefixTable) :
    (Fragments.of d p).edges.get? e.id = some (edgeFragment e p) := by
  refine Dict.get?_ofPairs_of_mem ?_ (List.mem_map.2 ⟨e, h, rfl⟩)
  rw [List.map_map]
  exact distinct

/-! ## Outputs -/

/-- What is new next to one more text. -/
theorem filter_notMem_concat (texts outputs : List String) (text : String) :
    texts.filter (· ∉ outputs ++ [text]) = (texts.filter (· ∉ outputs)).filter (· ≠ text) := by
  rw [List.filter_filter]
  refine List.filter_congr fun other _ => ?_
  by_cases htext : other = text <;> simp [htext]

/-- Texts are added once, in the order in which they come first. -/
theorem foldl_addOutput (texts outputs : List String) :
    texts.foldl addOutput outputs = outputs ++ (texts.filter (· ∉ outputs)).eraseDups := by
  induction texts generalizing outputs with
  | nil => simp
  | cons text rest ih =>
    rw [List.foldl_cons, ih]
    by_cases hmem : text ∈ outputs
    -- a text that stands there already is not added again
    · simp [addOutput, hmem]
    · have hadded : addOutput outputs text = outputs ++ [text] := by simp [addOutput, hmem]
      rw [hadded, filter_notMem_concat, List.filter_cons_of_pos (by simpa using hmem),
        List.eraseDups_cons, List.append_assoc, List.singleton_append]
      simp only [ne_eq, decide_not, beq_eq_decide]

theorem mem_foldl_addOutput {texts : List String} {outputs : List String} {x : String} :
    x ∈ texts.foldl addOutput outputs ↔ x ∈ outputs ∨ x ∈ texts := by
  rw [foldl_addOutput, List.mem_append, List.mem_eraseDups, List.mem_filter]
  by_cases hmem : x ∈ outputs
  · simp [hmem]
  · simp [hmem]

/-- Without repeated identities, the outputs are collected from the texts of the selected
    elements. -/
theorem outputs_eq_foldl {d : Diagram α} (nodes : (d.nodes.map Node.id).Nodup)
    (edges : (d.edges.map Edge.id).Nodup) (p : PrefixTable) :
    outputs d (Fragments.of d p) =
      ((d.nodes.filter (·.isSelected)).map (fun n => (nodeFragment n p).text) ++
        (d.edges.filter (·.isSelected)).map fun e => (edgeFragment e p).text).foldl
          addOutput [] := by
  have hnodes : d.nodes.filterMap (fun n => (Fragments.of d p).nodes.get? n.id)
      = d.nodes.map (nodeFragment · p) := by
    rw [← List.filterMap_eq_map]
    exact List.filterMap_congr fun n hn => get?_nodes nodes hn p
  have hedges : d.edges.filterMap (fun e => (Fragments.of d p).edges.get? e.id)
      = d.edges.map (edgeFragment · p) := by
    rw [← List.filterMap_eq_map]
    exact List.filterMap_congr fun e he => get?_edges edges he p
  simp only [outputs, hnodes, hedges, List.filter_append, List.filter_map, List.map_append,
    List.map_map, Function.comp_def, nodeFragment_selected, edgeFragment_selected]

/-- The outputs are the texts of the selected elements. -/
theorem mem_outputs {d : Diagram α} (nodes : (d.nodes.map Node.id).Nodup)
    (edges : (d.edges.map Edge.id).Nodup) {p : PrefixTable} {x : String} :
    x ∈ outputs d (Fragments.of d p) ↔
      (∃ n ∈ d.nodes, n.isSelected ∧ (nodeFragment n p).text = x) ∨
        ∃ e ∈ d.edges, e.isSelected ∧ (edgeFragment e p).text = x := by
  rw [outputs_eq_foldl nodes edges, mem_foldl_addOutput]
  simp [and_assoc]

/-! ## Patterns -/

/-- The text of the node at an end of an edge. -/
def textAt (d : Diagram α) (p : PrefixTable) (node : Option NodeId) : String :=
  ((node.bind d.node?).map fun n => (nodeFragment n p).text).getD ""

/-- The pattern of a complete edge. -/
def patternOf (d : Diagram α) (p : PrefixTable) (e : Edge α) : Pattern :=
  ⟨textAt d p e.subject.node?, (edgeFragment e p).text, textAt d p e.object.node?, e.isOptional⟩

theorem textAt_some {d : Diagram α} {p : PrefixTable} {n : Node α} (h : d.node? n.id = some n) :
    textAt d p (some n.id) = (nodeFragment n p).text := by
  simp [textAt, h]

/-- An end at an existing node has the text of the node. -/
theorem endText_some {d : Diagram α} (distinct : (d.nodes.map Node.id).Nodup) {p : PrefixTable}
    {n : Node α} (h : d.node? n.id = some n) (edge : EdgeId) :
    endText (Fragments.of d p) edge (some n.id) = .ok (textAt d p (some n.id)) := by
  rw [textAt_some h, endText, Option.bind_some, get?_nodes distinct (Diagram.mem_of_node? h).1]

/-- Along a list that is worked through until a step fails, the first failure counts. -/
theorem mapM_eq_findSome? {β γ ε : Type} {f : β → Except ε γ} {fault : β → Option ε} {g : β → γ}
    {l : List β} (h : ∀ x ∈ l, f x = (fault x).elim (.ok (g x)) .error) :
    l.mapM f = (l.findSome? fault).elim (.ok (l.map g)) .error := by
  induction l with
  | nil => rfl
  | cons x rest ih =>
    have hrest := ih fun y hy => h y (List.mem_cons_of_mem _ hy)
    rw [List.mapM_cons, h x List.mem_cons_self, hrest, List.findSome?_cons]
    cases fault x with
    | some error => rfl
    | none => cases rest.findSome? fault <;> rfl

/-- A step that succeeds everywhere succeeds along a list. -/
theorem mapM_eq_ok {β γ ε : Type} {f : β → Except ε γ} {g : β → γ} {l : List β}
    (h : ∀ x ∈ l, f x = .ok (g x)) : l.mapM f = .ok (l.map g) := by
  have hfaultless : ∀ x ∈ l, f x = (none : Option ε).elim (.ok (g x)) .error := h
  have hnone : (l.findSome? fun _ => (none : Option ε)) = none :=
    List.findSome?_eq_none_iff.2 fun _ _ => rfl
  rw [mapM_eq_findSome? hfaultless, hnone]
  rfl

/-! ## The query -/

/-- The outputs and patterns of a diagram. -/
def queryOf (d : Diagram α) (p : PrefixTable) : Select :=
  ⟨outputs d (Fragments.of d p), (d.edges.filter (·.complete)).map (patternOf d p)⟩

variable {c : Canvas α}

/-- A diagram with the structural invariant is a query if and only if it has an output. -/
theorem select_eq (h : c.WellFormed) (p : PrefixTable) :
    select c.diagram p =
      if (queryOf c.diagram p).outputs = [] then .error .noOutputs
      else .ok (queryOf c.diagram p) := by
  have hpatterns : (c.diagram.edges.filter (·.complete)).mapM
      (edgePattern (Fragments.of c.diagram p)) =
        .ok ((c.diagram.edges.filter (·.complete)).map (patternOf c.diagram p)) := by
    -- both ends of a complete edge have a text
    refine mapM_eq_ok fun e hmem => ?_
    obtain ⟨he, hcomplete⟩ := List.mem_filter.1 hmem
    obtain ⟨subject, hs, hsubject⟩ := h.start_exists he
    obtain ⟨object, ho, hobject⟩ := h.finish_exists he hcomplete
    rw [edgePattern, hs, ho, endText_some h.nodes_nodup hsubject,
      endText_some h.nodes_nodup hobject, get?_edges h.edges_nodup he]
    simp only [patternOf, hs, ho]
    rfl
  simp only [select, List.isEmpty_iff, hpatterns, queryOf]
  by_cases hnone : outputs c.diagram (Fragments.of c.diagram p) = []
  · simp only [hnone, if_true]
  · simp only [hnone, if_false]
    rfl

theorem select_eq_ok_iff (h : c.WellFormed) {p : PrefixTable} {q : Select} :
    select c.diagram p = .ok q ↔ (queryOf c.diagram p).outputs ≠ [] ∧ q = queryOf c.diagram p := by
  rw [select_eq h]
  by_cases hnone : (queryOf c.diagram p).outputs = []
  · simp [hnone]
  · simp [hnone, eq_comm]

theorem compile_eq (h : c.WellFormed) (p : PrefixTable) :
    c.diagram.compile p =
      if (queryOf c.diagram p).outputs = [] then .error .noOutputs
      else .ok (queryOf c.diagram p).text := by
  rw [Diagram.compile, select_eq h]
  split <;> rfl

theorem compile_eq_ok_iff (h : c.WellFormed) {p : PrefixTable} {text : String} :
    c.diagram.compile p = .ok text ↔
      (queryOf c.diagram p).outputs ≠ [] ∧ text = (queryOf c.diagram p).text := by
  rw [compile_eq h]
  by_cases hnone : (queryOf c.diagram p).outputs = []
  · simp [hnone]
  · simp [hnone, eq_comm]

/-- A diagram with the structural invariant is refused for the lack of an output only. -/
theorem eq_noOutputs_of_compile (h : c.WellFormed) {p : PrefixTable} {error : CompileError}
    (refused : c.diagram.compile p = .error error) : error = .noOutputs := by
  rw [compile_eq h] at refused
  split at refused
  · cases refused
    rfl
  · cases refused

/-- The pattern of a complete edge stands in the query. -/
theorem patternOf_mem {d : Diagram α} {p : PrefixTable} {e : Edge α} (he : e ∈ d.edges)
    (hcomplete : e.complete = true) : patternOf d p e ∈ (queryOf d p).patterns :=
  List.mem_map_of_mem (List.mem_filter.2 ⟨he, hcomplete⟩)

/-- A pattern of the query is that of a complete edge, with the texts of the nodes at its ends. -/
theorem exists_of_mem_patterns (h : c.WellFormed) {p : PrefixTable} {pattern : Pattern}
    (hmem : pattern ∈ (queryOf c.diagram p).patterns) :
    ∃ e ∈ c.diagram.edges, e.complete = true ∧
      ∃ subject ∈ c.diagram.nodes, ∃ object ∈ c.diagram.nodes,
        e.touches subject.id ∧ e.touches object.id ∧
          pattern = ⟨(nodeFragment subject p).text, (edgeFragment e p).text,
            (nodeFragment object p).text, e.isOptional⟩ := by
  obtain ⟨e, hfilter, rfl⟩ := List.mem_map.1 hmem
  obtain ⟨he, hcomplete⟩ := List.mem_filter.1 hfilter
  obtain ⟨subject, hs, hsubject⟩ := h.start_exists he
  obtain ⟨object, ho, hobject⟩ := h.finish_exists he hcomplete
  refine ⟨e, he, hcomplete, subject, (Diagram.mem_of_node? hsubject).1, object,
    (Diagram.mem_of_node? hobject).1, by simp [hs], by simp [ho], ?_⟩
  rw [patternOf, hs, ho, textAt_some hsubject, textAt_some hobject]

end Sparql

end QueryCanvas
