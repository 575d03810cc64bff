/-
  QueryCanvas.Proofs.Session.Query

  The queries that a session compiles to, and when they are well-formed.

  Contents are taken over into the query as they are. The kinds of elements see
  to it that the right sort of term stands in each place: variables start with a
  question mark, IRIs are in angle brackets, and anything else is a literal. The
  characters between are those that the user, the ontology and the prefixes
  have supplied; a query is well-formed exactly if these are clean, and if no
  literal has been left empty.
-/

import QueryCanvas.Proofs.Canvas.Content
import QueryCanvas.Proofs.Canvas.Layout
import QueryCanvas.Proofs.Session.Reachable
import QueryCanvas.Proofs.Sparql.Grammar
import QueryCanvas.Proofs.Sparql.Iri
import QueryCanvas.Proofs.Sparql.Select
import QueryCanvas.Settings.Basic

namespace QueryCanvas

open Sparql

variable {α : Type}

/-! ## Clean elements -/

/-- Nothing in the content of a node keeps its text from being a term. -/
def Node.IsClean (letter : Char → Bool) (p : PrefixTable) (n : Node α) : Prop :=
  match n.kind with
  | .selectedVariable => IsVariableTerm letter n.content
  | .uri => IsCleanIri p n.content
  | .literal => n.content ≠ ""
  | .unboundVariable | .amalgam | .placeholder => True

/-- Nothing in the content of an edge keeps its text from being a term. -/
def Edge.IsClean (letter : Char → Bool) (p : PrefixTable) (e : Edge α) : Prop :=
  match e.kind with
  | .unboundProperty => e.content = anonymous ∨ IsVariableTerm letter e.content
  | .boundProperty => IsCleanIri p e.content

/-- All elements that the query shows are clean: selected ones, complete edges, and the nodes at
    complete edges. -/
structure Diagram.IsClean (letter : Char → Bool) (p : PrefixTable) (d : Diagram α) : Prop where
  nodes : ∀ n ∈ d.nodes,
    (n.isSelected = true ∨ ∃ e ∈ d.edges, e.complete = true ∧ e.touches n.id = true) →
      n.IsClean letter p
  edges : ∀ e ∈ d.edges, (e.isSelected = true ∨ e.complete = true) → e.IsClean letter p

/-! ## Texts of nodes -/

namespace Sparql

variable {letter : Char → Bool} {p : PrefixTable}

theorem ne_anonymous_of_isNamedVariable {s : String} (h : isNamedVariable s) : s ≠ anonymous := by
  rintro rfl
  exact absurd h (by decide)

theorem isVariableTerm_node (letter : Char → Bool) (n : Node α) :
    IsVariableTerm letter ("?node" ++ toString n.id.index) :=
  isVariableTerm_numbered letter "node" (by decide) rfl n.id.index

/-- The text of a node is a term exactly if the node is clean, and in any case it starts like a
    term or is an empty literal. -/
theorem nodeFragment_text (letter : Char → Bool) {n : Node α} (fits : n.kind.Fits n.content) :
    (IsTerm letter (nodeFragment n p).text ↔ n.IsClean letter p) ∧
      (isNamedVariable (nodeFragment n p).text = true ∨ isBracketed (nodeFragment n p).text = true ∨
        isLiteral (nodeFragment n p).text = true ∨ (nodeFragment n p).text = "") := by
  have hnumbered := isVariableTerm_node letter n
  cases hkind : n.kind with
  | unboundVariable =>
    have hanonymous : n.content = anonymous := by simpa [NodeKind.Fits, hkind] using fits
    have htext : (nodeFragment n p).text = "?node" ++ toString n.id.index := by
      simp only [nodeFragment, hkind, hanonymous, variableName, if_true]
      rfl
    simp only [Node.IsClean, hkind, htext, iff_true]
    exact ⟨.inl hnumbered, .inl hnumbered.isNamedVariable⟩
  | selectedVariable =>
    have hnamed : isNamedVariable n.content = true := by simpa [NodeKind.Fits, hkind] using fits
    have htext : (nodeFragment n p).text = n.content := by
      simp only [nodeFragment, hkind, variableName, if_neg (ne_anonymous_of_isNamedVariable hnamed)]
    simp only [Node.IsClean, hkind, htext]
    exact ⟨isTerm_of_isNamedVariable hnamed, .inl hnamed⟩
  | uri =>
    have hbracketed := isBracketed_renderIri n.content p
    simp only [Node.IsClean, hkind, nodeFragment]
    exact ⟨(isTerm_of_bracketed hbracketed).trans (isIriTerm_renderIri_iff n.content p),
      .inr (.inl hbracketed)⟩
  | literal =>
    have hliteral : isLiteral n.content = true ∨ n.content = "" := by
      simpa [NodeKind.Fits, hkind] using fits
    simp only [Node.IsClean, hkind, nodeFragment]
    refine ⟨⟨?_, fun hne => .inr (.inr (hliteral.resolve_right hne))⟩, .inr (.inr hliteral)⟩
    intro hterm hempty
    exact not_isTerm_empty (hempty ▸ hterm)
  | amalgam =>
    simp only [Node.IsClean, hkind, nodeFragment, iff_true]
    exact ⟨.inl hnumbered, .inl hnumbered.isNamedVariable⟩
  | placeholder =>
    simp only [Node.IsClean, hkind, nodeFragment, iff_true]
    exact ⟨.inl hnumbered, .inl hnumbered.isNamedVariable⟩

/-- A selected node shows a variable. -/
theorem nodeFragment_text_of_selected {n : Node α} (fits : n.kind.Fits n.content)
    (selected : n.isSelected) : isNamedVariable (nodeFragment n p).text = true := by
  have hkind : n.kind = .selectedVariable := by simpa [Node.isSelected] using selected
  have hnamed : isNamedVariable n.content = true := by simpa [NodeKind.Fits, hkind] using fits
  rw [nodeFragment_of_selected selected, variableName,
    if_neg (ne_anonymous_of_isNamedVariable hnamed)]
  exact hnamed

/-! ## Texts of edges -/

theorem isNamedVariable_of_isVariable {s : String} (h : isVariable s) (hne : s ≠ anonymous) :
    isNamedVariable s = true := by
  unfold isVariable at h
  split at h
  · next cs hs =>
    cases cs with
    | nil => exact absurd (String.toList_inj.1 hs) hne
    | cons c cs => simp only [isNamedVariable, hs]
  · cases h

/-- An edge that stands for a variable shows one. -/
theorem isVariable_of_current {e : Edge α} (current : e.kind = .ofContent e.content)
    (hkind : e.kind = .unboundProperty) : isVariable e.content = true := by
  rw [hkind, EdgeKind.ofContent] at current
  split at current
  · assumption
  · cases current

/-- The text of an edge is a property exactly if the edge is clean, and in any case it starts like
    one. -/
theorem edgeFragment_text (letter : Char → Bool) {e : Edge α}
    (current : e.kind = .ofContent e.content) :
    (IsPropertyTerm letter (edgeFragment e p).text ↔ e.IsClean letter p) ∧
      (isNamedVariable (edgeFragment e p).text = true ∨
        isBracketed (edgeFragment e p).text = true) := by
  cases hkind : e.kind with
  | boundProperty =>
    have hbracketed := isBracketed_renderIri e.content p
    simp only [Edge.IsClean, hkind, edgeFragment]
    exact ⟨(isPropertyTerm_of_bracketed hbracketed).trans (isIriTerm_renderIri_iff e.content p),
      .inr hbracketed⟩
  | unboundProperty =>
    by_cases hanonymous : e.content = anonymous
    · have hnumbered := isVariableTerm_numbered letter "edge" (by decide) rfl e.id.index
      simp only [Edge.IsClean, hkind, edgeFragment, variableName, hanonymous, if_true, true_or,
        iff_true]
      exact ⟨.inl hnumbered, .inl hnumbered.isNamedVariable⟩
    · have hnamed := isNamedVariable_of_isVariable (isVariable_of_current current hkind) hanonymous
      simp only [Edge.IsClean, hkind, edgeFragment, variableName, hanonymous, if_false, false_or]
      exact ⟨isPropertyTerm_of_isNamedVariable hnamed, .inl hnamed⟩

/-- A selected edge shows a variable. -/
theorem edgeFragment_text_of_selected {e : Edge α} (current : e.kind = .ofContent e.content)
    (selected : e.isSelected) : isNamedVariable (edgeFragment e p).text = true := by
  obtain ⟨hkind, hne⟩ := named_of_isSelected selected
  rw [edgeFragment_of_selected selected]
  exact isNamedVariable_of_isVariable (isVariable_of_current current hkind) hne

/-! ## Queries of canvases -/

section Query

variable {c : Canvas α}

/-- The query is well-formed exactly if all elements that it shows are clean. -/
theorem isWellFormed_queryOf_iff (wf : c.WellFormed) (fits : c.Fits)
    (kinds : ∀ e ∈ c.diagram.edges, e.kind = .ofContent e.content)
    (has_output : (queryOf c.diagram p).outputs ≠ []) :
    (queryOf c.diagram p).IsWellFormed letter ↔ c.diagram.IsClean letter p := by
  have hnode : ∀ n ∈ c.diagram.nodes, IsTerm letter (nodeFragment n p).text ↔ n.IsClean letter p :=
    fun n hn => (nodeFragment_text letter (fits n hn)).1
  have hedge : ∀ e ∈ c.diagram.edges,
      IsPropertyTerm letter (edgeFragment e p).text ↔ e.IsClean letter p :=
    fun e he => (edgeFragment_text letter (kinds e he)).1
  have houtputs : ∀ x, x ∈ (queryOf c.diagram p).outputs ↔ _ :=
    fun x => mem_outputs wf.nodes_nodup wf.edges_nodup
  constructor
  -- every element that is shown stands in an output or in a pattern
  · intro h
    refine ⟨fun n hn hshown => ?_, fun e he hshown => ?_⟩
    · rw [← hnode n hn]
      rcases hshown with hselected | ⟨e, he, hcomplete, ht⟩
      · exact .inl (h.outputs _ ((houtputs _).2 (.inl ⟨n, hn, hselected, rfl⟩)))
      · obtain ⟨hsubject, -, hobject⟩ := h.patterns _ (patternOf_mem he hcomplete)
        have htext := textAt_some (p := p) (Diagram.node?_of_mem wf.nodes_nodup hn)
        rcases Edge.touches_iff.1 ht with hs | ho
        · rwa [patternOf, hs, htext] at hsubject
        · rwa [patternOf, ho, htext] at hobject
    · rw [← hedge e he]
      rcases hshown with hselected | hcomplete
      · exact .inl (h.outputs _ ((houtputs _).2 (.inr ⟨e, he, hselected, rfl⟩)))
      · exact (h.patterns _ (patternOf_mem he hcomplete)).2.1
  -- every output and every place of a pattern shows an element
  · intro h
    refine ⟨has_output, fun output houtput => ?_, fun pattern hpattern => ?_⟩
    · rcases (houtputs output).1 houtput with ⟨n, hn, hselected, rfl⟩ | ⟨e, he, hselected, rfl⟩
      · rw [← isTerm_of_isNamedVariable (nodeFragment_text_of_selected (fits n hn) hselected)]
        exact (hnode n hn).2 (h.nodes n hn (.inl hselected))
      · rw [← isPropertyTerm_of_isNamedVariable
          (edgeFragment_text_of_selected (kinds e he) hselected)]
        exact (hedge e he).2 (h.edges e he (.inl hselected))
    · obtain ⟨e, he, hcomplete, subject, hs, object, ho, hts, hto, rfl⟩ :=
        exists_of_mem_patterns wf hpattern
      exact ⟨(hnode subject hs).2 (h.nodes subject hs (.inr ⟨e, he, hcomplete, hts⟩)),
        (hedge e he).2 (h.edges e he (.inr hcomplete)),
        (hnode object ho).2 (h.nodes object ho (.inr ⟨e, he, hcomplete, hto⟩))⟩

end Query

end Sparql

/-! ## Queries of sessions -/

namespace Session

theorem isFitting_of_own {operation : Operation Float} (h : Own operation) :
    operation.IsFitting := by
  cases h with
  | place position => rfl
  | assignDatatype node label => exact .inr rfl
  | _ => trivial

/-- What a session compiles to. There are outputs, and all of them start like variables. There is
    one pattern for each complete edge, in order, optional if the edge is. Properties start like
    variables or are in angle brackets; so do subjects and objects, unless they are literals, of
    which those that were left empty have no text. The query is well-formed if and only if all
    elements that it shows are clean. -/
theorem Reachable.compiled_form {answered : String → Prop} {base : String}
    {sizes : ShapeSizes Float} {s : Session}
    (reached : Reachable Operation.IsFitting answered base sizes s) {text : String}
    (compiled : s.compile = .ok text) :
    ∃ q : Select, text = q.text ∧ q.outputs ≠ [] ∧
      (∀ output ∈ q.outputs, isNamedVariable output = true) ∧
      q.patterns.map Pattern.isOptional =
        (s.canvas.diagram.edges.filter (·.complete)).map Edge.isOptional ∧
      (∀ pattern ∈ q.patterns,
        (isNamedVariable pattern.property = true ∨ isBracketed pattern.property = true) ∧
          ∀ x ∈ [pattern.subject, pattern.object], isNamedVariable x = true ∨
            isBracketed x = true ∨ isLiteral x = true ∨ x = "") ∧
      ∀ letter, q.IsWellFormed letter ↔ s.canvas.diagram.IsClean letter s.prefixes := by
  have hcanvas := reached.canvas fun _ => isFitting_of_own
  have wf := hcanvas.wellFormed
  have fits : s.canvas.Fits := hcanvas.fits fun _ h => h
  have kinds := hcanvas.current.edge_kinds
  have hcompiled : s.canvas.diagram.compile s.prefixes = .ok text := by
    rw [compile] at compiled
    cases h : s.canvas.diagram.compile s.prefixes with
    | error error => simp [h, Except.mapError] at compiled
    | ok text' => simpa [h, Except.mapError] using compiled
  obtain ⟨has_output, rfl⟩ := (compile_eq_ok_iff wf).1 hcompiled
  refine ⟨_, rfl, has_output, fun output houtput => ?_, ?_, fun pattern hpattern => ?_,
    fun letter => isWellFormed_queryOf_iff wf fits kinds has_output⟩
  · rcases (mem_outputs wf.nodes_nodup wf.edges_nodup).1 houtput with
      ⟨n, hn, hselected, rfl⟩ | ⟨e, he, hselected, rfl⟩
    · exact nodeFragment_text_of_selected (fits n hn) hselected
    · exact edgeFragment_text_of_selected (kinds e he) hselected
  · simp [queryOf, patternOf, Function.comp_def]
  · obtain ⟨e, he, -, subject, hs, object, ho, -, -, rfl⟩ := exists_of_mem_patterns wf hpattern
    refine ⟨(edgeFragment_text (fun _ => false) (kinds e he)).2, fun x hx => ?_⟩
    simp only [List.mem_cons, List.not_mem_nil, or_false] at hx
    rcases hx with rfl | rfl
    · exact (nodeFragment_text (fun _ => false) (fits subject hs)).2
    · exact (nodeFragment_text (fun _ => false) (fits object ho)).2

/-! ## A name with a blank and a literal without a value -/

/-- A session in which the user has named a variable with a blank in the name. -/
def spaced : Session :=
  ((Session.new "http://base/" defaultSizes).edit fun c =>
    (c.run [.setMode .placeNode, .click ⟨0, 0⟩ none, .updateNode ⟨1⟩ "?a b"], ())).1

theorem reachable_spaced :
    Reachable Operation.IsFitting (fun _ => True) "http://base/" defaultSizes spaced := by
  refine Reachable.edit .new _ (fun operation h => ?_) rfl
  simp only [List.mem_cons, List.not_mem_nil, or_false] at h
  rcases h with rfl | rfl | rfl <;> trivial

/-- A session in which the object of an edge is a literal without a value. -/
def unvalued : Session :=
  ((Session.new "http://base/" defaultSizes).edit fun c =>
    (c.run [.createNode ⟨0, 0⟩ .unboundVariable "?", .updateNode ⟨1⟩ "?x",
      .createNode ⟨300, 0⟩ .unboundVariable "?", .assignNode ⟨2⟩ .literal "" (some "string"),
      .connect ⟨1⟩ ⟨2⟩ ":name"], ())).1

theorem reachable_unvalued :
    Reachable Operation.IsFitting (fun _ => True) "http://base/" defaultSizes unvalued := by
  refine Reachable.edit .new _ (fun operation h => ?_) rfl
  simp only [List.mem_cons, List.not_mem_nil, or_false] at h
  rcases h with rfl | rfl | rfl | rfl | rfl
  · rfl
  · trivial
  · rfl
  · exact .inr rfl
  · trivial

/-- Behind the first blank of the text of a well-formed query, the one that ends its first output,
    stands another variable or the end of the line. -/
theorem head?_behind_output {letter : Char → Bool} (hletter : letter ' ' = false) {q : Select}
    (h : q.IsWellFormed letter) (before behind : List Char) (hbefore : ' ' ∉ before)
    (htext : q.text.toList = "SELECT ".toList ++ (before ++ ' ' :: behind)) :
    behind.head? = some '?' ∨ behind.head? = some '\n' := by
  cases houtputs : q.outputs with
  | nil => exact absurd houtputs h.has_output
  | cons output rest =>
    obtain ⟨name, hname, -, hword⟩ := h.outputs output (by simp [houtputs])
    have hfirst : ' ' ∉ output.toList := by
      rw [hname, List.mem_cons, not_or]
      refine ⟨by decide, fun hmem => ?_⟩
      have hblank := hword ' ' hmem
      simp [isWordCharacter, hletter] at hblank
    let tail : List Char := (rest.flatMap fun o => o.toList ++ [' ']) ++ '\n' ::
      ("WHERE \x7b\n".toList ++ ((String.join (q.patterns.map Pattern.text)).toList
        ++ "\x7d\n\n".toList))
    have hsame : before ++ ' ' :: behind = output.toList ++ ' ' :: tail := by
      have htext' : q.text.toList = "SELECT ".toList ++ (output.toList ++ ' ' :: tail) := by
        simp [Select.text, houtputs, String.toList_join, List.flatMap_map, tail]
      exact List.append_cancel_left (htext.symm.trans htext')
    -- two ways to cut one text at its first blank
    have hcut := Text.cutAtFirst?_eq_some_iff.2 ⟨hsame, hfirst⟩
    rw [Text.cutAtFirst?_eq_some_iff.2 ⟨rfl, hbefore⟩] at hcut
    obtain ⟨-, rfl⟩ := Prod.mk.inj (Option.some.inj hcut)
    cases rest with
    | nil => exact .inr rfl
    | cons next others =>
      obtain ⟨name', hname', -⟩ := h.outputs next (by simp [houtputs])
      left
      simp [tail, hname']

/-- The name is taken over with its blank, so that the text cannot be read as a query with a
    variable for each output; and the literal leaves a gap in its pattern. -/
theorem compiled_ill_formed :
    (Reachable Operation.IsFitting (fun _ => True) "http://base/" defaultSizes spaced ∧
      ∃ text, spaced.compile = .ok text ∧
        ∀ letter : Char → Bool, letter ' ' = false →
          ¬ ∃ q : Select, q.IsWellFormed letter ∧ text = q.text) ∧
    Reachable Operation.IsFitting (fun _ => True) "http://base/" defaultSizes unvalued ∧
      unvalued.compile = .ok "SELECT ?x \nWHERE \x7b\n  ?x <http://base/name>  .\n\x7d\n\n" := by
  refine ⟨⟨reachable_spaced, "SELECT ?a b \nWHERE \x7b\n\x7d\n\n", rfl, ?_⟩,
    reachable_unvalued, rfl⟩
  rintro letter hblank ⟨q, hq, htext⟩
  have h := head?_behind_output hblank hq ['?', 'a'] "b \nWHERE \x7b\n\x7d\n\n".toList (by decide)
    (by rw [← htext]; rfl)
  exact absurd h (by decide)

theorem compiled_form_unvalued :
    unvalued.compile = .ok "SELECT ?x \nWHERE \x7b\n  ?x <http://base/name>  .\n\x7d\n\n" ∧
      ∃ q : Select, "SELECT ?x \nWHERE \x7b\n  ?x <http://base/name>  .\n\x7d\n\n" = q.text ∧
        q.outputs ≠ [] ∧ (∀ output ∈ q.outputs, isNamedVariable output = true) ∧
        q.patterns.map Pattern.isOptional =
          (unvalued.canvas.diagram.edges.filter (·.complete)).map Edge.isOptional ∧
        (∀ pattern ∈ q.patterns,
          (isNamedVariable pattern.property = true ∨ isBracketed pattern.property = true) ∧
            ∀ x ∈ [pattern.subject, pattern.object], isNamedVariable x = true ∨
              isBracketed x = true ∨ isLiteral x = true ∨ x = "") ∧
        ∀ letter, q.IsWellFormed letter ↔
          unvalued.canvas.diagram.IsClean letter unvalued.prefixes :=
  ⟨rfl, Reachable.compiled_form reachable_unvalued rfl⟩

end Session

end QueryCanvas
