import LabelPlacement.Geometry.Point
/-!
Boxes with sides along the axes.

A box is given by its two corners without any condition; it is empty when the lower corner exceeds
the upper one in some coordinate.  Two boxes intersect only when their interiors overlap, so boxes
that merely touch do not.
-/

namespace LabelPlacement

structure Box (α : Type) where
  lower : Point α
  upper : Point α
  deriving BEq, DecidableEq

namespace Box

variable {α : Type} [Scalar α]

def empty : Box α :=
  ⟨⟨Scalar.infinity, Scalar.infinity⟩, ⟨-Scalar.infinity, -Scalar.infinity⟩⟩

def isEmpty (box : Box α) : Bool :=
  decide (box.upper.x < box.lower.x) || decide (box.upper.y < box.lower.y)

/-- The box around a centre; the sign of the sizes does not matter. -/
def ofCenter (centre : Point α) (width height : α) : Box α :=
  let halfWidth := Scalar.magnitude width * 0.5
  let halfHeight := Scalar.magnitude height * 0.5
  ⟨⟨centre.x - halfWidth, centre.y - halfHeight⟩, ⟨centre.x + halfWidth, centre.y + halfHeight⟩⟩

def width (box : Box α) : α := if box.isEmpty then 0 else box.upper.x - box.lower.x

def height (box : Box α) : α := if box.isEmpty then 0 else box.upper.y - box.lower.y

def enclose (box : Box α) (point : Point α) : Box α :=
  if box.isEmpty then ⟨point, point⟩
  else
    { lower :=
        ⟨if box.lower.x < point.x then box.lower.x else point.x,
          if box.lower.y < point.y then box.lower.y else point.y⟩
      upper :=
        ⟨if point.x < box.upper.x then box.upper.x else point.x,
          if point.y < box.upper.y then box.upper.y else point.y⟩ }

def union (box other : Box α) : Box α :=
  if other.isEmpty then box else (box.enclose other.lower).enclose other.upper

def ofPoints (points : List (Point α)) : Box α := points.foldl enclose empty

def center (box : Box α) : Point α := box.lower.midpoint box.upper

/-- The box grown by a margin on every side.  A negative margin shrinks it, at most down to its
centre; the empty box stays as it is. -/
def expanded (box : Box α) (margin : α) : Box α :=
  if box.isEmpty then box
  else
    let grown : Box α :=
      ⟨⟨box.lower.x - margin, box.lower.y - margin⟩, ⟨box.upper.x + margin, box.upper.y + margin⟩⟩
    if grown.isEmpty then ⟨box.center, box.center⟩ else grown

/-- The box moved by a displacement; the empty box stays as it is. -/
def translated (box : Box α) (displacement : Displacement α) : Box α :=
  if box.isEmpty then box
  else ⟨box.lower.translate displacement, box.upper.translate displacement⟩

/-- Whether the interiors of two boxes overlap. -/
def intersects (box other : Box α) : Bool :=
  !box.isEmpty && !other.isEmpty &&
    !(decide (box.upper.x ≤ other.lower.x) || decide (other.upper.x ≤ box.lower.x) ||
      decide (box.upper.y ≤ other.lower.y) || decide (other.upper.y ≤ box.lower.y))

/-- Whether the box holds a point, its boundary included. -/
def contains (box : Box α) (point : Point α) : Bool :=
  !box.isEmpty && decide (box.lower.x ≤ point.x) && decide (point.x ≤ box.upper.x) &&
    decide (box.lower.y ≤ point.y) && decide (point.y ≤ box.upper.y)

def nearestTo (box : Box α) (point : Point α) : Point α :=
  ⟨Scalar.clamp point.x box.lower.x box.upper.x, Scalar.clamp point.y box.lower.y box.upper.y⟩

end Box

end LabelPlacement
