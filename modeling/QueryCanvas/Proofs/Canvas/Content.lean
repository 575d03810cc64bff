/-
  QueryCanvas.Proofs.Canvas.Content

  Kinds and contents of nodes that go together. Operations that find out the
  kind from the content keep them together by themselves. Two operations take
  both from the caller, and have to be called with a pair that fits.
-/

import QueryCanvas.Proofs.Canvas.Structure

namespace QueryCanvas

open Sparql (anonymous isLiteral isNamedVariable)

/-- The contents that a node of a kind may have. A literal may be left empty for the time being;
    what an IRI or a placeholder shows is not restricted. -/
def NodeKind.Fits (kind : NodeKind) (content : String) : Prop :=
  match kind with
  | literal => isLiteral content = true ∨ content = ""
  | selectedVariable => isNamedVariable content = true
  | unboundVariable | amalgam => content = anonymous
  | uri | placeholder => True

/-- The kind that is found out from a content fits it. -/
theorem NodeKind.fits_ofContent (content : String) : (NodeKind.ofContent content).Fits content := by
  unfold ofContent
  split
  · exact .inl ‹_›
  · split
    · trivial
    · split
      · assumption
      · split
        · assumption
        · trivial

/-- Range inference changes the kind of an anonymous variable and not its content. -/
theorem NodeKind.Fits.infer {kind : NodeKind} {content : String} (h : kind.Fits content)
    (inferable : kind.isInferable) (merged : Bool) :
    NodeKind.Fits (if merged then .amalgam else .unboundVariable) content := by
  have hanonymous : content = anonymous := by
    cases kind with
    | unboundVariable => exact h
    | amalgam => exact h
    | _ => simp [isInferable] at inferable
  cases merged <;> exact hanonymous

/-- The operations that are given no pair of kind and content that does not fit. -/
def Operation.IsFitting {α : Type} : Operation α → Prop
  | .createNode _ kind content | .assignNode _ kind content _ => kind.Fits content
  | _ => True

/-! ## Rules in general -/

/-- A rule about kinds and contents that go together. Operations that find out a kind by themselves
    keep to it: those that read the kind off the content, and range inference. -/
structure NodeKind.IsRule (goes : NodeKind → String → Prop) : Prop where
  found : ∀ content, goes (.ofContent content) content
  inferred : ∀ {kind content}, goes kind content → kind.isInferable = true → ∀ merged : Bool,
    goes (if merged then .amalgam else .unboundVariable) content

theorem NodeKind.fits_isRule : NodeKind.IsRule NodeKind.Fits := ⟨fits_ofContent, Fits.infer⟩

/-- The operations that are given no pair of kind and content against a rule. -/
def Operation.Keeps {α : Type} (goes : NodeKind → String → Prop) : Operation α → Prop
  | .createNode _ kind content | .assignNode _ kind content _ => goes kind content
  | _ => True

theorem Operation.IsFitting.keeps {α : Type} {operation : Operation α}
    (h : operation.IsFitting) : operation.Keeps NodeKind.Fits := by
  cases operation <;> exact h

namespace Canvas

variable {α : Type} {goes : NodeKind → String → Prop}

/-- A click performs an operation that keeps to the rule. -/
theorem keeps_clickOperation (rule : NodeKind.IsRule goes) (c : Canvas α) (position : Point α)
    (hit : Option NodeId) : (c.clickOperation position hit).Keeps goes := by
  unfold clickOperation
  split
  · exact rule.found anonymous
  · trivial
  · trivial
  · split <;> trivial
  · trivial
  · trivial

/-- All nodes keep to the rule. -/
def Obeys (c : Canvas α) (goes : NodeKind → String → Prop) : Prop :=
  ∀ n ∈ c.diagram.nodes, goes n.kind n.content

/-- The kinds and contents of all nodes go together. -/
def Fits (c : Canvas α) : Prop := ∀ n ∈ c.diagram.nodes, n.kind.Fits n.content

namespace Obeys

variable {c c' : Canvas α}

/-- One node may change into another that keeps to the rule. -/
theorem modifyNode {d : Diagram α} (h : ∀ n ∈ d.nodes, goes n.kind n.content) (id : NodeId)
    {f : Node α → Node α} (keeps : ∀ n ∈ d.nodes, n.id = id → goes (f n).kind (f n).content) :
    ∀ n ∈ (d.modifyNode id f).nodes, goes n.kind n.content := by
  intro m hm
  obtain ⟨n, hn, rfl⟩ := List.mem_map.1 hm
  split
  · next hid => exact keeps n hn hid
  · exact h n hn

theorem step [Scalar α] {operation : Operation α} (rule : NodeKind.IsRule goes)
    (wf : c.WellFormed) (h : c.Obeys goes) (hstep : Step c operation c')
    (keeps : operation.Keeps goes) : c'.Obeys goes := by
  induction hstep with
  | quiet _ feed => exact h
  | createNode position kind content selected feed kept =>
    exact List.forall_mem_append.2 ⟨h, List.forall_mem_singleton.2 keeps⟩
  | updateNode content feed found =>
    exact modifyNode h _ fun _ _ _ => rule.found content
  | assignNode kind content inferredClass feed found =>
    exact modifyNode h _ fun _ _ _ => keeps
  | @inferClass id n label merged feed found inferable =>
    refine modifyNode h _ fun m hm hid => ?_
    -- the node was found to be an anonymous variable
    obtain rfl : m = n := wf.eq_of_node? hm hid found
    exact rule.inferred (h m hm) inferable merged
  | setClass inferredClass feed found => exact modifyNode h _ fun n hn _ => h n hn
  | moveNode position feed found => exact modifyNode h _ fun n hn _ => h n hn
  | deleteNode selected feed found kept => exact fun n hn => h n (List.mem_of_mem_filter hn)
  | setOptional value feed found =>
    intro m hm
    obtain ⟨n, hn, rfl⟩ := List.mem_map.1 hm
    split <;> exact h n hn
  | clear feed => exact fun n hn => absurd hn List.not_mem_nil
  | click _ ih => exact ih (keeps_clickOperation rule c _ _)
  | _ => exact h

end Obeys

/-- Operations that keep to a rule lead to canvases that do. -/
theorem Reachable.obeys [Scalar α] {allowed : Operation α → Prop} {sizes : ShapeSizes α}
    {c : Canvas α} (reached : Reachable allowed sizes c) (rule : NodeKind.IsRule goes)
    (keeps : ∀ operation, allowed operation → operation.Keeps goes) : c.Obeys goes := by
  refine reached.induct (P := fun c => c.Obeys goes) (fun n hn => absurd hn List.not_mem_nil)
    (fun _ _ h => h) ?_
  intro c c' operation before h permitted hstep
  exact h.step rule before.wellFormed hstep (keeps operation permitted)

/-- Fitting operations keep kinds and contents together. -/
theorem Reachable.fits [Scalar α] {allowed : Operation α → Prop} {sizes : ShapeSizes α}
    {c : Canvas α} (reached : Reachable allowed sizes c)
    (fitting : ∀ operation, allowed operation → operation.IsFitting) : c.Fits :=
  reached.obeys NodeKind.fits_isRule fun operation h => (fitting operation h).keeps

end Canvas

end QueryCanvas
