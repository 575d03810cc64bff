/-
  QueryCanvas.Geometry.Shape

  Points of the canvas, and outlines of nodes: axis-aligned rectangles with
  rounded corners. Without a corner radius the outline is a plain rectangle; with
  a radius of half the side of a square it is a circle.
-/

import QueryCanvas.Scalar

namespace QueryCanvas

/-! ## Points -/

/-- A point in canvas coordinates. -/
structure Point (α : Type) where
  x : α
  y : α
deriving DecidableEq, Repr

namespace Point

variable {α : Type} [Scalar α]

/-- The point `dx` to the right of `p` and `dy` below it. -/
def offset (p : Point α) (dx dy : α) : Point α := ⟨p.x + dx, p.y + dy⟩

/-- The length of the segment between two points. -/
def distance (p q : Point α) : α := Scalar.hypot (p.x - q.x) (p.y - q.y)

/-- The point at parameter `t` of the segment from `p` to `q`: `p` at zero, `q` at one. -/
def between (p q : Point α) (t : α) : Point α :=
  ⟨p.x + (q.x - p.x) * t, p.y + (q.y - p.y) * t⟩

end Point

/-! ## Outlines -/

/-- A rounded rectangle around its center. -/
structure Shape (α : Type) where
  center : Point α
  width : α
  height : α
  cornerRadius : α
deriving DecidableEq, Repr

namespace Shape

variable {α : Type} [Scalar α]

/-! ## Building outlines -/

/-- A rounded rectangle. The radius is brought between zero and half the shorter side. -/
def rounded (center : Point α) (width height cornerRadius : α) : Shape α :=
  let largest := Scalar.half (Scalar.smaller width height)
  ⟨center, width, height,
    Scalar.clamp cornerRadius Scalar.zero (Scalar.greater largest Scalar.zero)⟩

/-- A plain rectangle. -/
def rectangle (center : Point α) (width height : α) : Shape α :=
  rounded center width height Scalar.zero

def circle (center : Point α) (diameter : α) : Shape α :=
  rounded center diameter diameter (Scalar.half diameter)

/-- The same outline around another center. -/
def movedTo (s : Shape α) (center : Point α) : Shape α := { s with center := center }

/-! ## Sides and corners -/

def left (s : Shape α) : α := s.center.x - Scalar.half s.width

def right (s : Shape α) : α := s.center.x + Scalar.half s.width

def top (s : Shape α) : α := s.center.y - Scalar.half s.height

def bottom (s : Shape α) : α := s.center.y + Scalar.half s.height

/-- The centers of the corner arcs, clockwise from the top left. -/
def cornerCenters (s : Shape α) : List (Point α) :=
  let r := s.cornerRadius
  [⟨s.left + r, s.top + r⟩, ⟨s.right - r, s.top + r⟩,
   ⟨s.right - r, s.bottom - r⟩, ⟨s.left + r, s.bottom - r⟩]

/-! ## Inside and outside -/

/-- True if `p` lies inside the outline or, up to the tolerance, on it. -/
def contains (s : Shape α) (p : Point α) : Bool :=
  let dx := Scalar.abs (p.x - s.center.x)
  let dy := Scalar.abs (p.y - s.center.y)
  let halfWidth := Scalar.half s.width
  let halfHeight := Scalar.half s.height
  if halfWidth + Scalar.tolerance < dx ∨ halfHeight + Scalar.tolerance < dy then false
  else
    let innerX := halfWidth - s.cornerRadius
    let innerY := halfHeight - s.cornerRadius
    if dx ≤ innerX ∨ dy ≤ innerY then true
    else Scalar.hypot (dx - innerX) (dy - innerY) ≤ s.cornerRadius + Scalar.tolerance

end Shape

end QueryCanvas
