/-
  QueryCanvas.Proofs.Settings.Outlines

  The outlines that accepted settings lead to.

  Settings are accepted if the sizes of the nodes are finite and positive. The
  chosen corner radii are not looked at, as a radius is brought between zero and
  half the shorter side of its outline. This works for every radius that is a
  number, infinities and negative numbers included (`Shape.hasRadius_rounded_iff`).
  What is not a number stays what it is between any bounds.

  `Settings.outlines_usable_iff` says so for the outlines of all kinds of nodes.
-/

import QueryCanvas.Proofs.Scalar.Order
import QueryCanvas.Settings.Basic

namespace QueryCanvas

open Binary64

/-! ## Usable outlines -/

namespace Shape

/-- Width and height are finite and positive. -/
structure HasExtent (s : Shape Float) : Prop where
  width_isFinite : s.width.isFinite = true
  width_pos : 0.0 < s.width
  height_isFinite : s.height.isFinite = true
  height_pos : 0.0 < s.height

/-- The corner radius is a number between zero and half the shorter side. -/
structure HasRadius (s : Shape Float) : Prop where
  isNaN_radius : s.cornerRadius.isNaN = false
  radius_nonneg : 0.0 ≤ s.cornerRadius
  radius_le : s.cornerRadius ≤ Scalar.half (Scalar.smaller s.width s.height)

variable {center : Point Float} {width height radius : Float}

theorem hasExtent_rounded (hwidth : isUsableSize width = true)
    (hheight : isUsableSize height = true) :
    (Shape.rounded center width height radius).HasExtent := by
  simp only [isUsableSize, Bool.and_eq_true, decide_eq_true_eq] at hwidth hheight
  exact ⟨hwidth.1, hwidth.2, hheight.1, hheight.2⟩

/-- The shorter of two usable sides is one of them. -/
theorem smaller_pos (hwidth : 0.0 < width) (hheight : 0.0 < height) :
    0.0 < Scalar.smaller width height := by
  show 0.0 < Binary64.smaller width height
  simp only [Binary64.smaller]
  split
  · exact hheight
  · split
    · exact hheight
    · exact hwidth

/-- The radius of a rounded outline is as it should be if and only if a number is asked for. -/
theorem hasRadius_rounded_iff (hwidth : 0.0 < width) (hheight : 0.0 < height) :
    (Shape.rounded center width height radius).HasRadius ↔ radius.isNaN = false := by
  let largest := Scalar.half (Scalar.smaller width height)
  let bound := Scalar.greater largest 0.0
  have hradius : (Shape.rounded center width height radius).cornerRadius =
      Scalar.clamp radius 0.0 bound := rfl
  -- half the shorter side may have been rounded to zero, but it is not negative
  have hsign : sign? largest.toModel.unpack = some .positive :=
    (sign?_half _).trans (sign?_of_pos (smaller_pos hwidth hheight))
  have hlargest : 0.0 ≤ largest := nonneg_of_sign? hsign
  have hbound : bound = if 0.0 < largest then largest else 0.0 := by
    show (if (decide (0.0 < largest) || (0.0 : Float).isNaN) = true then largest else 0.0) = _
    rw [show (0.0 : Float).isNaN = false from rfl, Bool.or_false]
    simp only [decide_eq_true_eq]
  have hboundNonneg : 0.0 ≤ bound := by
    rw [hbound]
    split
    · exact hlargest
    · exact le_refl rfl
  constructor
  · intro h
    refine Bool.eq_false_iff.2 fun hNaN => Bool.eq_false_iff.1 h.isNaN_radius ?_
    rw [hradius, clamp_of_isNaN hNaN, hNaN]
  · intro number
    obtain ⟨hnumber, hleft, hright⟩ := clamp_within number hboundNonneg
    refine ⟨hradius ▸ hnumber, hradius ▸ hleft, hradius ▸ ?_⟩
    by_cases hpos : 0.0 < largest
    · rwa [hbound, if_pos hpos] at hright ⊢
    · rw [hbound, if_neg hpos] at hright ⊢
      exact le_of_le_zero hright hlargest hpos

end Shape

/-! ## Outlines of accepted settings -/

/-- The sizes of accepted settings are finite and positive. -/
theorem Settings.isUsableSize_of_validate {s : Settings} (accepted : s.validate = .ok ()) :
    ∀ entry ∈ checkedSizes s.sizes, isUsableSize entry.2 = true := by
  simp only [validate] at accepted
  split at accepted
  · cases accepted
  · split at accepted
    · cases accepted
    · next hnone => simpa using hnone

/-- The corner radius that the settings choose for a kind of node, if they do. -/
def NodeKind.chosenRadius? (kind : NodeKind) (sizes : ShapeSizes Float) : Option Float :=
  match kind with
  | unboundVariable | selectedVariable | amalgam => some sizes.variableCornerRadius
  | uri => some sizes.uriCornerRadius
  | literal | placeholder => none

/-- Accepted settings lead to outlines with finite and positive sides. Their corner radius lies
    between zero and half the shorter side exactly if the radius in the settings is a number. -/
theorem Settings.outlines_usable_iff {s : Settings} (accepted : s.validate = .ok ())
    (kind : NodeKind) (center : Point Float) :
    (kind.shape center s.sizes).HasExtent ∧
      ((kind.shape center s.sizes).HasRadius ↔
        ∀ radius, kind.chosenRadius? s.sizes = some radius → radius.isNaN = false) := by
  have husable := isUsableSize_of_validate accepted
  simp only [checkedSizes, List.forall_mem_cons] at husable
  obtain ⟨hnode, hwidth, hheight, hplaceholder, -⟩ := husable
  have hpos {x : Float} (h : isUsableSize x = true) : 0.0 < x := by
    simp only [isUsableSize, Bool.and_eq_true, decide_eq_true_eq] at h
    exact h.2
  have hhalf {x : Float} (h : isUsableSize x = true) : (Scalar.half x).isNaN = false :=
    isNaN_eq_false_iff.2 ⟨_, (sign?_half x).trans (sign?_of_pos (hpos h))⟩
  cases kind with
  | unboundVariable | selectedVariable | amalgam | uri =>
    refine ⟨Shape.hasExtent_rounded hnode hnode, ?_⟩
    simp only [NodeKind.chosenRadius?, Option.some.injEq, forall_eq']
    exact Shape.hasRadius_rounded_iff (hpos hnode) (hpos hnode)
  | literal =>
    refine ⟨Shape.hasExtent_rounded hwidth hheight, ?_⟩
    simp only [NodeKind.chosenRadius?, reduceCtorEq, false_implies, implies_true, iff_true]
    exact (Shape.hasRadius_rounded_iff (hpos hwidth) (hpos hheight)).2 rfl
  | placeholder =>
    refine ⟨Shape.hasExtent_rounded hplaceholder hplaceholder, ?_⟩
    simp only [NodeKind.chosenRadius?, reduceCtorEq, false_implies, implies_true, iff_true]
    exact (Shape.hasRadius_rounded_iff (hpos hplaceholder) (hpos hplaceholder)).2
      (hhalf hplaceholder)

/-- The default settings are accepted, and their outline of an IRI has a corner radius. -/
theorem Settings.outlines_usable_default :
    Settings.default.validate = .ok () ∧
      (NodeKind.uri.shape ⟨0.0, 0.0⟩ defaultSizes).HasRadius := by
  have accepted : Settings.default.validate = .ok () := rfl
  refine ⟨accepted, (outlines_usable_iff accepted .uri ⟨0.0, 0.0⟩).2.2 fun radius h => ?_⟩
  cases h
  rfl

/-- Settings whose corner radius of IRIs is not a number. -/
def Settings.withoutRadius : Settings :=
  { Settings.default with sizes := { defaultSizes with uriCornerRadius := 0.0 / 0.0 } }

/-- They are accepted, and the outline of an IRI has no corner radius. -/
theorem Settings.radius_not_checked :
    ¬ ∀ (s : Settings) (kind : NodeKind) (center : Point Float), s.validate = .ok () →
      center.x.isFinite = true → center.y.isFinite = true →
      (kind.shape center s.sizes).HasExtent ∧ (kind.shape center s.sizes).HasRadius := by
  intro h
  have hradius := (h withoutRadius .uri ⟨0.0, 0.0⟩ rfl rfl rfl).2
  cases hradius.isNaN_radius

end QueryCanvas
