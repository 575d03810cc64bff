/-
  QueryCanvas.Geometry.Crossing

  Where a segment crosses an outline. Edges end there: the segment between the
  centers of two nodes is cut off at the outlines.

  A crossing is given by its parameter on the segment, zero at the start and
  one at the goal. The straight sides and the corner arcs are tested one by
  one, each only over the stretch that belongs to the outline.
-/

import QueryCanvas.Geometry.Shape

namespace QueryCanvas.Shape

variable {α : Type} [Scalar α]

/-- The parameters at which the line from `start` towards `goal` meets the top and the bottom. -/
def levelCrossings (s : Shape α) (start goal : Point α) : List α :=
  let dx := goal.x - start.x
  let dy := goal.y - start.y
  let r := s.cornerRadius
  if Scalar.epsilon < Scalar.abs dy then
    [s.top, s.bottom].filterMap fun level =>
      let t := (level - start.y) / dy
      let x := start.x + t * dx
      if s.left + r - Scalar.tolerance ≤ x ∧ x ≤ s.right - r + Scalar.tolerance then some t
      else none
  else []

/-- The parameters at which the line from `start` towards `goal` meets the left and right sides. -/
def uprightCrossings (s : Shape α) (start goal : Point α) : List α :=
  let dx := goal.x - start.x
  let dy := goal.y - start.y
  let r := s.cornerRadius
  if Scalar.epsilon < Scalar.abs dx then
    [s.left, s.right].filterMap fun upright =>
      let t := (upright - start.x) / dx
      let y := start.y + t * dy
      if s.top + r - Scalar.tolerance ≤ y ∧ y ≤ s.bottom - r + Scalar.tolerance then some t
      else none
  else []

/-- The parameters at which the line from `start` towards `goal` meets the arc around `corner`:
    the solutions of a quadratic equation that lie in the quadrant of the arc. -/
def arcCrossings (s : Shape α) (start goal corner : Point α) : List α :=
  let dx := goal.x - start.x
  let dy := goal.y - start.y
  let r := s.cornerRadius
  let sx := start.x - corner.x
  let sy := start.y - corner.y
  -- |start + t * (goal - start) - corner|² = r², as a polynomial in t
  let a := dx * dx + dy * dy
  let b := Scalar.two * (sx * dx + sy * dy)
  let c := sx * sx + sy * sy - r * r
  let discriminant := b * b - Scalar.four * a * c
  if discriminant < Scalar.zero then []
  else
    let root := Scalar.sqrt discriminant
    -- of the full circle only the quadrant that points away from the center belongs to the outline
    [(-b - root) / (Scalar.two * a), (-b + root) / (Scalar.two * a)].filter fun t =>
      let p := start.between goal t
      let outwardX := (p.x - corner.x) * (corner.x - s.center.x)
      let outwardY := (p.y - corner.y) * (corner.y - s.center.y)
      decide (-Scalar.tolerance ≤ outwardX ∧ -Scalar.tolerance ≤ outwardY)

/-- The parameters at which the segment from `start` to `goal` meets the outline. -/
def crossings (s : Shape α) (start goal : Point α) : List α :=
  let arcs :=
    if Scalar.epsilon < s.cornerRadius then s.cornerCenters.flatMap (s.arcCrossings start goal)
    else []
  (s.levelCrossings start goal ++ s.uprightCrossings start goal ++ arcs).filter fun t =>
    -Scalar.epsilon ≤ t ∧ t ≤ Scalar.one + Scalar.epsilon

/-- The first point at which the segment from `start` to `goal` crosses the outline. There is none
    if the segment has no length, lies inside, or stops short of the outline. -/
def firstCrossing? (s : Shape α) (start goal : Point α) : Option (Point α) :=
  if start.distance goal ≤ Scalar.epsilon then none
  else if s.contains start && s.contains goal then none
  else
    let parameters := (s.crossings start goal).map (Scalar.clamp · Scalar.zero Scalar.one)
    (Scalar.earliest? parameters).map (start.between goal)

/-- What is said when a segment does not cross an outline. -/
def noCrossingMessage : String := "segment does not cross the shape outline"

end QueryCanvas.Shape
