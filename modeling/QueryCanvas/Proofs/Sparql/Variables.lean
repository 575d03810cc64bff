/-
  QueryCanvas.Proofs.Sparql.Variables

  Which variables of a query are one and the same.

  An element that stands for a variable is called what its content says, or by a
  made-up name if it has none. Made-up names hold the role and the identity of
  the element, so that no two of them are the same (`madeUpName_injective`). But
  nobody keeps the user from typing a made-up name, and then the two elements
  are joined (`same_variable_iff`).
-/

import QueryCanvas.Proofs.Sparql.Select
import QueryCanvas.Settings.Basic

namespace QueryCanvas

open Sparql

/-! ## Variables -/

/-- The name that is made up for an element. -/
def ElementRef.madeUpName : ElementRef → String
  | node id => "?node" ++ toString id.index
  | edge id => "?edge" ++ toString id.index

/-- An element that stands for a variable, and the name that it was given, if any. -/
structure Variable where
  element : ElementRef
  given : Option String
deriving DecidableEq, Repr

/-- What the variable is called in the query. -/
def Variable.text (v : Variable) : String := v.given.getD v.element.madeUpName

/-- The name that a content gives to a variable. -/
def givenName? (content : String) : Option String :=
  if content = anonymous then none else some content

variable {α : Type}

/-- The variable that a node stands for. Amalgams and placeholders have no names. -/
def Node.asVariable? (n : Node α) : Option Variable :=
  match n.kind with
  | .unboundVariable | .selectedVariable => some ⟨.node n.id, givenName? n.content⟩
  | .amalgam | .placeholder => some ⟨.node n.id, none⟩
  | .uri | .literal => none

def Edge.asVariable? (e : Edge α) : Option Variable :=
  match e.kind with
  | .unboundProperty => some ⟨.edge e.id, givenName? e.content⟩
  | .boundProperty => none

/-- The elements that stand for variables, nodes before edges. -/
def Diagram.variables (d : Diagram α) : List Variable :=
  d.nodes.filterMap Node.asVariable? ++ d.edges.filterMap Edge.asVariable?

theorem Node.element_asVariable? {n : Node α} {v : Variable} (h : n.asVariable? = some v) :
    v.element = .node n.id := by
  unfold asVariable? at h
  cases hkind : n.kind with
  | unboundVariable | selectedVariable | amalgam | placeholder =>
    rw [hkind] at h
    rw [← Option.some.inj h]
  | uri | literal =>
    rw [hkind] at h
    cases h

theorem Edge.element_asVariable? {e : Edge α} {v : Variable} (h : e.asVariable? = some v) :
    v.element = .edge e.id := by
  unfold asVariable? at h
  cases hkind : e.kind with
  | unboundProperty =>
    rw [hkind] at h
    rw [← Option.some.inj h]
  | boundProperty =>
    rw [hkind] at h
    cases h

namespace Diagram

variable {d : Diagram α}

/-- No node that stands for a variable is left out. -/
theorem exists_variable_node {n : Node α} (hn : n ∈ d.nodes) (h : n.kind.isVariable = true) :
    ∃ v ∈ d.variables, v.element = .node n.id := by
  have hsome : n.asVariable?.isSome = n.kind.isVariable := by
    cases hkind : n.kind <;> simp [Node.asVariable?, NodeKind.isVariable, hkind]
  obtain ⟨v, hv⟩ := Option.isSome_iff_exists.1 (hsome.trans h)
  exact ⟨v, List.mem_append_left _ (List.mem_filterMap.2 ⟨n, hn, hv⟩), Node.element_asVariable? hv⟩

theorem exists_variable_edge {e : Edge α} (he : e ∈ d.edges) (h : e.kind = .unboundProperty) :
    ∃ v ∈ d.variables, v.element = .edge e.id := by
  have hv : e.asVariable? = some ⟨.edge e.id, givenName? e.content⟩ := by
    rw [Edge.asVariable?, h]
  exact ⟨_, List.mem_append_right _ (List.mem_filterMap.2 ⟨e, he, hv⟩), rfl⟩

end Diagram

/-! ## Made-up names -/

/-- Numbers that are written alike are equal. -/
theorem toString_index_inj {m n : Nat} (h : toString m = toString n) : m = n := by
  have hdigits : Nat.toDigits 10 m = Nat.toDigits 10 n := by
    rwa [Nat.toString_eq_ofList_toDigits, Nat.toString_eq_ofList_toDigits, String.ofList_inj] at h
  calc
    m = Nat.ofDigitChars 10 (Nat.toDigits 10 m) 0 := Nat.ofDigitChars_ten_toDigits.symm
    _ = Nat.ofDigitChars 10 (Nat.toDigits 10 n) 0 := by rw [hdigits]
    _ = n := Nat.ofDigitChars_ten_toDigits

/-- The name of a node is none of an edge. -/
theorem madeUpName_ne (node : NodeId) (edge : EdgeId) :
    (ElementRef.node node).madeUpName ≠ (ElementRef.edge edge).madeUpName := by
  intro h
  have hletters := congrArg String.toList h
  simp [ElementRef.madeUpName] at hletters

/-- No name is made up for two elements. -/
theorem madeUpName_injective : Function.Injective ElementRef.madeUpName := by
  intro x y h
  cases x with
  | node a =>
    cases y with
    | node b =>
      have hindex : a.index = b.index := toString_index_inj ((String.append_right_inj "?node").1 h)
      rw [show a = b from congrArg NodeId.mk hindex]
    | edge b => exact absurd h (madeUpName_ne a b)
  | edge a =>
    cases y with
    | node b => exact absurd h.symm (madeUpName_ne b a)
    | edge b =>
      have hindex : a.index = b.index := toString_index_inj ((String.append_right_inj "?edge").1 h)
      rw [show a = b from congrArg EdgeId.mk hindex]

/-- The two variables are one, although they are of different elements: both were given the same
    name, or one was given the name that is made up for the other. -/
def Variable.Joined (v w : Variable) : Prop :=
  (∃ name, v.given = some name ∧ w.given = some name) ∨
    (v.given = none ∧ w.given = some v.element.madeUpName) ∨
    (w.given = none ∧ v.given = some w.element.madeUpName)

theorem Variable.text_eq_iff {v w : Variable} (different : v.element ≠ w.element) :
    v.text = w.text ↔ v.Joined w := by
  obtain ⟨x, given⟩ := v
  obtain ⟨y, given'⟩ := w
  have hmade : x.madeUpName ≠ y.madeUpName := fun h => different (madeUpName_injective h)
  cases given with
  | none =>
    cases given' with
    | none => simp [text, Joined, hmade]
    | some name => simp [text, Joined, eq_comm]
  | some name =>
    cases given' with
    | none => simp [text, Joined]
    | some name' => simp [text, Joined, eq_comm]

/-! ## Texts of variables -/

namespace Sparql

theorem variableName_eq (content role : String) (index : Nat) :
    variableName content role index =
      (givenName? content).getD ("?" ++ role ++ toString index) := by
  unfold variableName givenName?
  split <;> rfl

/-- A node that stands for a variable has its text, whatever is known of prefixes. -/
theorem nodeFragment_variable {n : Node α} {v : Variable} (h : n.asVariable? = some v)
    (p : PrefixTable) : (nodeFragment n p).text = v.text := by
  unfold Node.asVariable? at h
  unfold nodeFragment
  cases hkind : n.kind with
  | unboundVariable | selectedVariable =>
    rw [hkind] at h
    rw [← Option.some.inj h]
    exact variableName_eq n.content "node" n.id.index
  | amalgam | placeholder =>
    rw [hkind] at h
    rw [← Option.some.inj h]
    rfl
  | uri | literal =>
    rw [hkind] at h
    cases h

theorem edgeFragment_variable {e : Edge α} {v : Variable} (h : e.asVariable? = some v)
    (p : PrefixTable) : (edgeFragment e p).text = v.text := by
  unfold Edge.asVariable? at h
  unfold edgeFragment
  cases hkind : e.kind with
  | unboundProperty =>
    rw [hkind] at h
    rw [← Option.some.inj h]
    exact variableName_eq e.content "edge" e.id.index
  | boundProperty =>
    rw [hkind] at h
    cases h

/-- The text that a query has for an element. -/
def Fragments.text? (fragments : Fragments) : ElementRef → Option String
  | .node id => (fragments.nodes.get? id).map Fragment.text
  | .edge id => (fragments.edges.get? id).map Fragment.text

end Sparql

/-! ## Canvases -/

namespace Canvas

variable {c : Canvas α}

/-- In a query every variable is called by its text. -/
theorem WellFormed.text?_variable (wf : c.WellFormed) (p : PrefixTable) {v : Variable}
    (h : v ∈ c.diagram.variables) :
    (Fragments.of c.diagram p).text? v.element = some v.text := by
  rcases List.mem_append.1 h with h | h
  · obtain ⟨n, hn, hv⟩ := List.mem_filterMap.1 h
    rw [Node.element_asVariable? hv, Fragments.text?, get?_nodes wf.nodes_nodup hn,
      ← nodeFragment_variable hv p]
    rfl
  · obtain ⟨e, he, hv⟩ := List.mem_filterMap.1 h
    rw [Edge.element_asVariable? hv, Fragments.text?, get?_edges wf.edges_nodup he,
      ← edgeFragment_variable hv p]
    rfl

variable [Scalar α] {allowed : Operation α → Prop} {sizes : ShapeSizes α}

/-- Whatever led to a canvas, and whatever is known of prefixes: two elements that stand for
    variables have the same text in the query if and only if both were given it by the user, or it
    is made up for one of them and the user has given it to the other. So no two made-up names are
    the same. The elements that stand for variables are told by their kinds. -/
theorem Reachable.same_variable_iff (reached : Reachable allowed sizes c) (p : PrefixTable) :
    (∀ n ∈ c.diagram.nodes, n.kind.isVariable = true →
        ∃ v ∈ c.diagram.variables, v.element = .node n.id) ∧
      (∀ e ∈ c.diagram.edges, e.kind = .unboundProperty →
        ∃ v ∈ c.diagram.variables, v.element = .edge e.id) ∧
      ∀ v ∈ c.diagram.variables, ∀ w ∈ c.diagram.variables, v.element ≠ w.element →
        ((Fragments.of c.diagram p).text? v.element = (Fragments.of c.diagram p).text? w.element ↔
          v.Joined w) := by
  refine ⟨fun n hn h => Diagram.exists_variable_node hn h,
    fun e he h => Diagram.exists_variable_edge he h, ?_⟩
  intro v hv w hw different
  rw [reached.wellFormed.text?_variable p hv, reached.wellFormed.text?_variable p hw,
    Option.some_inj]
  exact Variable.text_eq_iff different

/-- A canvas on which a node was given the name that is made up for another. -/
def joined : Canvas Float :=
  (Canvas.new defaultSizes).run [
    .createNode ⟨0, 0⟩ .unboundVariable "?", .createNode ⟨300, 0⟩ .unboundVariable "?",
    .updateNode ⟨2⟩ "?node1", .connect ⟨1⟩ ⟨2⟩ "?"]

theorem reachable_joined : Reachable (fun _ => True) defaultSizes joined :=
  Reachable.new.run fun _ _ => trivial

theorem variables_joined :
    joined.diagram.variables =
      [⟨.node ⟨1⟩, none⟩, ⟨.node ⟨2⟩, some "?node1"⟩, ⟨.edge ⟨1⟩, none⟩] := rfl

theorem same_variable_iff_joined :
    ((Fragments.of joined.diagram (.new "http://base/")).text? (.node ⟨1⟩) =
        (Fragments.of joined.diagram (.new "http://base/")).text? (.node ⟨2⟩)) ∧
      ¬ (Fragments.of joined.diagram (.new "http://base/")).text? (.node ⟨1⟩) =
        (Fragments.of joined.diagram (.new "http://base/")).text? (.edge ⟨1⟩) := by
  obtain ⟨-, -, hiff⟩ := Reachable.same_variable_iff reachable_joined (.new "http://base/")
  simp only [variables_joined, List.forall_mem_cons] at hiff
  obtain ⟨⟨-, hnodes, hedge, -⟩, -⟩ := hiff
  constructor
  · exact (hnodes (by decide)).2 (.inr (.inl ⟨rfl, rfl⟩))
  · intro hsame
    rcases (hedge (by decide)).1 hsame with ⟨name, hname, -⟩ | ⟨-, hname⟩ | ⟨-, hname⟩
    · cases hname
    · cases hname
    · cases hname

/-- A made-up name is not reserved. Here the query has one variable for two nodes, of which the user
    has named only one. -/
theorem made_up_name_taken :
    Reachable (fun _ => True) defaultSizes joined ∧
      joined.diagram.compile (.new "http://base/") =
        .ok "SELECT ?node1 \nWHERE \x7b\n  ?node1 ?edge1 ?node1 .\n\x7d\n\n" ∧
      ¬ ∀ v ∈ joined.diagram.variables, ∀ w ∈ joined.diagram.variables, v.element ≠ w.element →
        (Fragments.of joined.diagram (.new "http://base/")).text? v.element =
            (Fragments.of joined.diagram (.new "http://base/")).text? w.element →
          ∃ name, v.given = some name ∧ w.given = some name := by
  refine ⟨reachable_joined, rfl, fun honly => ?_⟩
  simp only [variables_joined, List.forall_mem_cons] at honly
  obtain ⟨⟨-, hnodes, -⟩, -⟩ := honly
  obtain ⟨name, hname, -⟩ := hnodes (by decide) rfl
  cases hname

end Canvas

end QueryCanvas
