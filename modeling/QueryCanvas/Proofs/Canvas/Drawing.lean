/-
  QueryCanvas.Proofs.Canvas.Drawing

  What an edge that is still being drawn does to the query.

  It has no pattern. But if it shows a variable with a name, this name is among
  the outputs like that of any other edge. So the query is the one of the
  finished edges exactly if the name makes no difference to the line of outputs:
  it is an output before the edge is reached, or the next new output is the
  same name. Names with blanks can make up the same line in still other ways.
-/

import QueryCanvas.Proofs.Sparql.Select

namespace QueryCanvas

variable {α : Type}

namespace Sparql

/-! ## The line of outputs -/

/-- The outputs as they stand in a query. -/
def outputLine (names : List String) : String := String.join (names.map (· ++ " "))

theorem outputLine_cons (name : String) (rest : List String) :
    outputLine (name :: rest) = name ++ " " ++ outputLine rest := by
  rw [outputLine, List.map_cons, String.join_cons, outputLine]

theorem outputLine_append (names more : List String) :
    outputLine (names ++ more) = outputLine names ++ outputLine more := by
  rw [outputLine, List.map_append, String.join_append, outputLine, outputLine]

theorem outputLine_eq_empty_iff {names : List String} : outputLine names = "" ↔ names = [] := by
  cases names with
  | nil => simp [outputLine]
  | cons name rest => simp [outputLine_cons]

/-- A name without blanks is what stands before the first blank of the line. -/
theorem cutAtFirst?_outputLine {name : String} (clear : ' ' ∉ name.toList) (rest : List String) :
    Text.cutAtFirst? ' ' (outputLine (name :: rest)).toList =
      some (name.toList, (outputLine rest).toList) := by
  refine Text.cutAtFirst?_eq_some_iff.2 ⟨?_, clear⟩
  have hblank : " ".toList = [' '] := rfl
  rw [outputLine_cons, String.toList_append, String.toList_append, hblank, List.append_assoc,
    List.singleton_append]

/-- So the names can be read off the line. -/
theorem outputLine_inj {names names' : List String} (clear : ∀ name ∈ names, ' ' ∉ name.toList)
    (clear' : ∀ name ∈ names', ' ' ∉ name.toList) :
    outputLine names = outputLine names' ↔ names = names' := by
  refine ⟨fun h => ?_, congrArg outputLine⟩
  induction names generalizing names' with
  | nil => exact (outputLine_eq_empty_iff.1 h.symm).symm
  | cons name rest ih =>
    cases names' with
    | nil => exact outputLine_eq_empty_iff.1 h
    | cons name' rest' =>
      rw [List.forall_mem_cons] at clear clear'
      have hcut := cutAtFirst?_outputLine clear.1 rest
      rw [h, cutAtFirst?_outputLine clear'.1, Option.some_inj, Prod.mk.injEq, String.toList_inj,
        String.toList_inj] at hcut
      rw [hcut.1, ih clear.2 clear'.2 hcut.2.symm]

/-- Queries with the same patterns are told apart by the line of outputs. -/
theorem text_eq_iff {outputs outputs' : List String} {patterns : List Pattern} :
    (⟨outputs', patterns⟩ : Select).text = (⟨outputs, patterns⟩ : Select).text ↔
      outputLine outputs' = outputLine outputs := by
  rw [Select.text, Select.text, ← outputLine, ← outputLine]
  simp only [String.append_left_inj, String.append_right_inj]

/-- So are canvases, also where there are no outputs and no query. -/
theorem compile_eq_iff {c c' : Canvas α} (h : c.WellFormed) (h' : c'.WellFormed) {p : PrefixTable}
    (patterns : (queryOf c'.diagram p).patterns = (queryOf c.diagram p).patterns) :
    c'.diagram.compile p = c.diagram.compile p ↔
      outputLine (queryOf c'.diagram p).outputs = outputLine (queryOf c.diagram p).outputs := by
  have hcompiled : ∀ q q' : Select, q'.patterns = q.patterns →
      ((if q'.outputs = [] then .error .noOutputs else .ok q'.text : Except CompileError String) =
          (if q.outputs = [] then .error .noOutputs else .ok q.text) ↔
        outputLine q'.outputs = outputLine q.outputs) := by
    rintro ⟨outputs, patterns⟩ ⟨outputs', _⟩ rfl
    have hnil : outputLine [] = "" := rfl
    by_cases hnone : outputs = [] <;> by_cases hnone' : outputs' = []
    · simp [hnone, hnone']
    · simp [hnone, hnone', hnil, outputLine_eq_empty_iff]
    · have hline : outputLine outputs ≠ "" := fun h => hnone (outputLine_eq_empty_iff.1 h)
      simp [hnone, hnone', hnil, hline.symm]
    · simp [hnone, hnone', text_eq_iff]
  rw [compile_eq h, compile_eq h']
  exact hcompiled _ _ patterns

/-! ## One more name among the outputs -/

/-- A name that is added to the outputs before others makes no difference to the line exactly if
    it is an output by then, or the line is the same with the name in front of the new ones. -/
theorem outputLine_collected_iff (shown later : List String) (name : String) :
    outputLine ((shown ++ later).foldl addOutput []) =
        outputLine ((shown ++ name :: later).foldl addOutput []) ↔
      name ∈ shown ∨
        outputLine (later.filter (· ∉ shown)).eraseDups =
          outputLine (name :: ((later.filter (· ∉ shown)).filter (· ≠ name)).eraseDups) := by
  have hcollected : ∀ x, x ∈ shown.foldl addOutput [] ↔ x ∈ shown := fun x => by
    rw [mem_foldl_addOutput]
    simp
  simp only [List.foldl_append, List.foldl_cons]
  generalize shown.foldl addOutput [] = collected at hcollected
  simp only [← hcollected]
  by_cases hmem : name ∈ collected
  · have hkept : addOutput collected name = collected := by simp [addOutput, hmem]
    simp [hkept, hmem]
  · have hadded : addOutput collected name = collected ++ [name] := by simp [addOutput, hmem]
    rw [hadded, foldl_addOutput, foldl_addOutput, filter_notMem_concat, List.append_assoc,
      List.singleton_append, outputLine_append, outputLine_append, String.append_right_inj]
    simp [hmem]

/-- Among distinct names, moving one to the front changes nothing exactly if it comes first. -/
theorem eraseDups_eq_cons_iff {names : List String} {name : String} :
    names.eraseDups = name :: (names.filter (· ≠ name)).eraseDups ↔ names.head? = some name := by
  cases names with
  | nil => simp [List.eraseDups_nil]
  | cons first rest =>
    rw [List.eraseDups_cons, List.head?_cons, Option.some_inj]
    constructor
    · intro h
      exact (List.cons.inj h).1
    · rintro rfl
      simp [beq_eq_decide]

end Sparql

namespace Diagram

/-- The names that the elements of a diagram give to outputs, nodes before edges. -/
def outputNames (d : Diagram α) : List String :=
  (d.nodes.filter (·.isSelected)).map (fun n => Sparql.variableName n.content "node" n.id.index) ++
    (d.edges.filter (·.isSelected)).map Edge.content

/-- The diagram without the edges that are still being drawn. -/
def finished (d : Diagram α) : Diagram α := { d with edges := d.edges.filter (·.complete) }

theorem outputNames_append (nodes : List (Node α)) (before behind : List (Edge α)) :
    outputNames ⟨nodes, before ++ behind⟩ =
      outputNames ⟨nodes, before⟩ ++ outputNames ⟨[], behind⟩ := by
  simp [outputNames]

theorem outputNames_cons (e : Edge α) (behind : List (Edge α)) :
    outputNames ⟨[], e :: behind⟩ =
      if e.isSelected then e.content :: outputNames ⟨[], behind⟩
      else outputNames ⟨[], behind⟩ := by
  cases h : e.isSelected <;> simp [outputNames, h]

end Diagram

/-- An edge that is being drawn has no pattern. -/
theorem Sparql.patterns_finished (d : Diagram α) (p : PrefixTable) :
    (queryOf d.finished p).patterns = (queryOf d p).patterns := by
  have hedges : d.finished.edges.filter (·.complete) = d.edges.filter (·.complete) := by
    rw [Diagram.finished, List.filter_filter]
    simp
  rw [queryOf, hedges]
  rfl

/-! ## Canvases without the drawn edge -/

namespace Canvas

open Sparql

variable {c : Canvas α}

/-- The canvas without what is being drawn. -/
def finished (c : Canvas α) : Canvas α :=
  { c with diagram := c.diagram.finished, completing := false, selected := none }

namespace WellFormed

theorem finished (h : c.WellFormed) : c.finished.WellFormed := by
  refine h.restrict c.feed (.refl _) List.filter_sublist ?_ ?_ ?_
  · intro e he id ht
    exact Diagram.isSome_node?_iff.1 (h.ends_exist e (List.mem_of_mem_filter he) id ht)
  · symm
    rw [List.any_eq_false]
    intro e he
    simpa using (List.mem_filter.1 he).2
  · simp

theorem outputs_eq (h : c.WellFormed) (p : PrefixTable) :
    (queryOf c.diagram p).outputs = c.diagram.outputNames.foldl addOutput [] := by
  have hnodes : (c.diagram.nodes.filter (·.isSelected)).map (fun n => (nodeFragment n p).text) =
      (c.diagram.nodes.filter (·.isSelected)).map
        fun n => variableName n.content "node" n.id.index := by
    refine List.map_congr_left fun n hn => ?_
    rw [nodeFragment_of_selected (List.mem_filter.1 hn).2]
  have hedges : (c.diagram.edges.filter (·.isSelected)).map (fun e => (edgeFragment e p).text) =
      (c.diagram.edges.filter (·.isSelected)).map Edge.content := by
    refine List.map_congr_left fun e he => ?_
    rw [edgeFragment_of_selected (List.mem_filter.1 he).2]
  rw [queryOf, outputs_eq_foldl h.nodes_nodup h.edges_nodup, hnodes, hedges, Diagram.outputNames]

/-- Around an edge that is being drawn all edges are complete. -/
theorem edges_finished (h : c.WellFormed) {before behind : List (Edge α)} {e : Edge α}
    (hedges : c.diagram.edges = before ++ e :: behind) (drawn : e.complete = false) :
    c.diagram.finished.edges = before ++ behind := by
  have hone := h.one_incomplete
  rw [hedges, List.countP_append, List.countP_cons_of_pos (by simp [drawn])] at hone
  have hbefore : before.countP (!·.complete) = 0 := by omega
  have hbehind : behind.countP (!·.complete) = 0 := by omega
  rw [List.countP_eq_zero] at hbefore hbehind
  rw [Diagram.finished, hedges, List.filter_append, List.filter_cons_of_neg (by simp [drawn]),
    List.filter_eq_self.2 fun x hx => by simpa using hbefore x hx,
    List.filter_eq_self.2 fun x hx => by simpa using hbehind x hx]

/-- Leaving out the edge that is being drawn keeps the query exactly if the edge has no name, or
    the name makes no difference to the line of outputs. -/
theorem compile_finished_iff (h : c.WellFormed) (p : PrefixTable) {before behind : List (Edge α)}
    {e : Edge α} (hedges : c.diagram.edges = before ++ e :: behind) (drawn : e.complete = false) :
    let shown := Diagram.outputNames ⟨c.diagram.nodes, before⟩
    let fresh := (Diagram.outputNames (⟨[], behind⟩ : Diagram α)).filter (· ∉ shown)
    c.diagram.finished.compile p = c.diagram.compile p ↔
      (e.isSelected = true → e.content ∈ shown ∨ outputLine fresh.eraseDups =
        outputLine (e.content :: (fresh.filter (· ≠ e.content)).eraseDups)) := by
  intro shown fresh
  have hdrawn : c.diagram.outputNames = shown ++ Diagram.outputNames ⟨[], e :: behind⟩ := by
    rw [← Diagram.outputNames_append, ← hedges]
  have hfinished : c.diagram.finished.outputNames =
      shown ++ Diagram.outputNames (⟨[], behind⟩ : Diagram α) := by
    rw [← Diagram.outputNames_append, ← h.edges_finished hedges drawn]
    rfl
  show c.finished.diagram.compile p = c.diagram.compile p ↔ _
  rw [compile_eq_iff h h.finished (patterns_finished c.diagram p), h.outputs_eq,
    h.finished.outputs_eq, hdrawn, Diagram.outputNames_cons]
  show outputLine (c.diagram.finished.outputNames.foldl addOutput []) = _ ↔ _
  rw [hfinished]
  by_cases hselected : e.isSelected = true
  · rw [if_pos hselected, outputLine_collected_iff]
    simp [hselected, shown, fresh]
  · rw [if_neg hselected]
    simp [hselected]

end WellFormed

/-! ## The query while an edge is being drawn -/

variable [Scalar α]

/-- An edge that is being drawn has no pattern in the query, but the name that it shows is an
    output. So leaving out the edge keeps the query, or the error, if and only if it shows no name
    or the name makes no difference to the line of outputs. Where there are no blanks in the names,
    this means that the name is an output before the edge is reached, or the next one after it. -/
theorem Reachable.drawn_edge_left_out_iff {allowed : Operation α → Prop} {sizes : ShapeSizes α}
    (reached : Reachable allowed sizes c) (p : PrefixTable) :
    (c.completing = false → c.diagram.finished = c.diagram) ∧
      (∀ q q', Sparql.select c.diagram p = .ok q → Sparql.select c.diagram.finished p = .ok q' →
        q'.patterns = q.patterns) ∧
      ∀ before e behind, c.diagram.edges = before ++ e :: behind → e.complete = false →
        let shown := Diagram.outputNames ⟨c.diagram.nodes, before⟩
        let fresh := (Diagram.outputNames (⟨[], behind⟩ : Diagram α)).filter (· ∉ shown)
        (c.diagram.finished.compile p = c.diagram.compile p ↔
          (e.isSelected = true → e.content ∈ shown ∨ outputLine fresh.eraseDups =
            outputLine (e.content :: (fresh.filter (· ≠ e.content)).eraseDups))) ∧
        ((∀ x ∈ e :: behind, ' ' ∉ x.content.toList) →
          (c.diagram.finished.compile p = c.diagram.compile p ↔
            (e.isSelected = true → e.content ∈ shown ∨ fresh.head? = some e.content))) := by
  have wf := reached.wellFormed
  refine ⟨fun idle => ?_, fun q q' hq hq' => ?_, fun before e behind hedges drawn => ?_⟩
  · have hall : c.diagram.edges.filter (·.complete) = c.diagram.edges := by
      rw [List.filter_eq_self]
      simpa [wf.completing_eq] using idle
    rw [Diagram.finished, hall]
  · rw [(select_eq_ok_iff wf).1 hq |>.2, (select_eq_ok_iff wf.finished).1 hq' |>.2]
    exact patterns_finished c.diagram p
  · intro shown fresh
    have hiff := wf.compile_finished_iff p hedges drawn
    refine ⟨hiff, fun clear => hiff.trans (imp_congr_right fun _ => or_congr_right ?_)⟩
    -- without blanks, the lines are the same only if the names are
    rw [List.forall_mem_cons] at clear
    have hfresh : ∀ name ∈ fresh, ' ' ∉ name.toList := by
      intro name hname
      have hbehind : name ∈ (behind.filter (·.isSelected)).map Edge.content := by
        simpa [Diagram.outputNames] using (List.mem_filter.1 hname).1
      obtain ⟨x, hx, rfl⟩ := List.mem_map.1 hbehind
      exact clear.2 x (List.mem_of_mem_filter hx)
    rw [outputLine_inj, eraseDups_eq_cons_iff]
    · intro name hname
      exact hfresh name (List.mem_eraseDups.1 hname)
    · rw [List.forall_mem_cons]
      refine ⟨clear.1, fun name hname => ?_⟩
      exact hfresh name (List.mem_of_mem_filter (List.mem_eraseDups.1 hname))

/-- A canvas with an output, at which an edge with a name is being drawn. -/
def drawing : Canvas Float :=
  (Canvas.new defaultSizes).run
    [.createNode ⟨0, 0⟩ .selectedVariable "?a", .startEdge ⟨1⟩ "?p"]

theorem reachable_drawing : Reachable (fun _ => True) defaultSizes drawing :=
  Reachable.new.run fun _ _ => trivial

/-- The name of the drawn edge is an output, next to that of the node. -/
theorem drawn_edge_in_query :
    Reachable (fun _ => True) defaultSizes drawing ∧
      drawing.diagram.compile (.new "http://base/") =
        .ok "SELECT ?a ?p \nWHERE \x7b\n\x7d\n\n" ∧
      drawing.diagram.finished.compile (.new "http://base/") =
        .ok "SELECT ?a \nWHERE \x7b\n\x7d\n\n" :=
  ⟨reachable_drawing, rfl, rfl⟩

/-- The drawing with the name of the node for the edge, too. -/
def redrawing : Canvas Float := (drawing.perform (.updateEdge ⟨1⟩ "?a")).1

theorem drawn_edge_left_out_iff_redrawing :
    (drawing.diagram.edges.map (·.complete) = [false] ∧
        redrawing.diagram.edges.map (·.complete) = [false]) ∧
      drawing.diagram.finished.compile (.new "http://base/") ≠
        drawing.diagram.compile (.new "http://base/") ∧
      redrawing.diagram.finished.compile (.new "http://base/") =
        redrawing.diagram.compile (.new "http://base/") := by
  obtain ⟨-, -, hdrawing⟩ :=
    Reachable.drawn_edge_left_out_iff reachable_drawing (.new "http://base/")
  obtain ⟨-, -, hredrawing⟩ := Reachable.drawn_edge_left_out_iff
    (.perform reachable_drawing trivial : Reachable (fun _ => True) defaultSizes redrawing)
    (.new "http://base/")
  refine ⟨⟨rfl, rfl⟩, fun hsame => ?_, ?_⟩
  · have hiff := (hdrawing [] _ [] rfl rfl).2 (by decide)
    exact absurd (hiff.1 hsame rfl) (by decide)
  · have hiff := (hredrawing [] _ [] rfl rfl).2 (by decide)
    exact hiff.2 fun _ => .inl (by decide)

end Canvas

end QueryCanvas
