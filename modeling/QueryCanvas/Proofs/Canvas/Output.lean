/-
  QueryCanvas.Proofs.Canvas.Output

  Which canvases compile to a query: those that show an output, a node of the
  answers or a property variable with a name. The lack of an output is the only
  reason for which a canvas is refused, whatever prefixes are known.

  Compiling marks outputs by kind, while an output is told from what an element
  shows. The two agree since the kind of an edge is always that of its content.
-/

import QueryCanvas.Proofs.Canvas.Layout
import QueryCanvas.Proofs.Sparql.Select

namespace QueryCanvas

open Sparql (anonymous isVariable)

variable {α : Type}

/-! ## Outputs of a diagram -/

/-- Some node is part of the answers, or some edge shows a property variable with a name. -/
def Diagram.HasOutput (d : Diagram α) : Prop :=
  (∃ n ∈ d.nodes, n.kind = .selectedVariable) ∨
    ∃ e ∈ d.edges, isVariable e.content = true ∧ e.content ≠ anonymous

/-- A variable is longer than the question mark unless it is the question mark. -/
theorem Sparql.one_lt_utf8ByteSize_iff {s : String} (h : isVariable s = true) :
    1 < s.utf8ByteSize ↔ s ≠ anonymous := by
  have hs : ∃ name, s = anonymous ++ name := by
    unfold isVariable at h
    split at h
    · next name hname =>
      exact ⟨String.ofList name, String.toList_inj.1 (by simp [hname, anonymous])⟩
    · cases h
  obtain ⟨name, rfl⟩ := hs
  have hmark : anonymous.utf8ByteSize = 1 := by decide
  have hname : name.utf8ByteSize = 0 ↔ anonymous ++ name = anonymous := by
    rw [String.utf8ByteSize_eq_zero_iff, String.append_eq_left_iff]
  rw [String.utf8ByteSize_append, hmark, ne_eq, ← hname]
  omega

/-- An edge of the kind of its content is selected if and only if it shows a variable with a
    name. -/
theorem Edge.isSelected_iff {e : Edge α} (current : e.kind = .ofContent e.content) :
    e.isSelected = true ↔ isVariable e.content = true ∧ e.content ≠ anonymous := by
  have hkind : e.kind = .unboundProperty ↔ isVariable e.content = true := by
    rw [current, EdgeKind.ofContent]
    split <;> simp_all
  rw [isSelected, Bool.and_eq_true, decide_eq_true_eq, decide_eq_true_eq, hkind]
  exact and_congr_right Sparql.one_lt_utf8ByteSize_iff

namespace Canvas

/-- The query of a canvas has outputs if and only if the canvas shows one. -/
theorem outputs_ne_nil_iff {c : Canvas α} (wf : c.WellFormed)
    (kinds : ∀ e ∈ c.diagram.edges, e.kind = .ofContent e.content) (p : PrefixTable) :
    (Sparql.queryOf c.diagram p).outputs ≠ [] ↔ c.diagram.HasOutput := by
  have hmem : ∀ x, x ∈ (Sparql.queryOf c.diagram p).outputs ↔ _ :=
    fun x => Sparql.mem_outputs wf.nodes_nodup wf.edges_nodup
  constructor
  · intro hne
    obtain ⟨x, hx⟩ := List.exists_mem_of_ne_nil _ hne
    rcases (hmem x).1 hx with ⟨n, hn, hselected, -⟩ | ⟨e, he, hselected, -⟩
    · exact .inl ⟨n, hn, by simpa [Node.isSelected] using hselected⟩
    · exact .inr ⟨e, he, (Edge.isSelected_iff (kinds e he)).1 hselected⟩
  · rintro (⟨n, hn, hkind⟩ | ⟨e, he, hnamed⟩)
    · have hselected : n.isSelected = true := by simp [Node.isSelected, hkind]
      exact List.ne_nil_of_mem ((hmem _).2 (.inl ⟨n, hn, hselected, rfl⟩))
    · have hselected := (Edge.isSelected_iff (kinds e he)).2 hnamed
      exact List.ne_nil_of_mem ((hmem _).2 (.inr ⟨e, he, hselected, rfl⟩))

/-! ## Canvases that compile -/

variable [Scalar α]

/-- Whatever led to it, a canvas compiles if and only if it shows an output. Otherwise the lack of
    outputs is reported, and a missing node never is. -/
theorem Reachable.compiles_iff_output {allowed : Operation α → Prop} {sizes : ShapeSizes α}
    {c : Canvas α} (reached : Reachable allowed sizes c) (p : PrefixTable) :
    ((∃ text, c.diagram.compile p = .ok text) ↔ c.diagram.HasOutput) ∧
      (¬ c.diagram.HasOutput → c.diagram.compile p = .error .noOutputs) ∧
      ∀ edge node, c.diagram.compile p ≠ .error (.danglingEdge edge node) := by
  have wf := reached.wellFormed
  have houtput := outputs_ne_nil_iff wf reached.current.edge_kinds p
  rw [Diagram.compile, Sparql.select_eq wf]
  by_cases hnone : (Sparql.queryOf c.diagram p).outputs = []
  · have hno : ¬ c.diagram.HasOutput := fun h => houtput.2 h hnone
    simp [hnone, hno, Except.map]
  · have hsome : c.diagram.HasOutput := houtput.1 hnone
    simp [hnone, hsome, Except.map]

/-- The sketch with a name for the property of the edge that is being drawn. -/
def outlined : Canvas Float := (sketch.perform (.updateEdge ⟨2⟩ "?p")).1

theorem compiles_iff_output_outlined :
    outlined.diagram.compile (.new "http://base/") =
        .ok "SELECT ?p \nWHERE \x7b\n  ?node1 <ex:knows> <ex:Person> .\n\x7d\n\n" ∧
      outlined.diagram.HasOutput ∧
      ∀ edge node,
        outlined.diagram.compile (.new "http://base/") ≠ .error (.danglingEdge edge node) := by
  have htext : outlined.diagram.compile (.new "http://base/") =
      .ok "SELECT ?p \nWHERE \x7b\n  ?node1 <ex:knows> <ex:Person> .\n\x7d\n\n" := rfl
  obtain ⟨hoks, -, hnever⟩ :=
    Reachable.compiles_iff_output (.perform reachable_sketch trivial) (.new "http://base/")
  exact ⟨htext, hoks.1 ⟨_, htext⟩, hnever⟩

end Canvas

end QueryCanvas
