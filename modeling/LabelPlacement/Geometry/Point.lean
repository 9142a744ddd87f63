import LabelPlacement.Scalar.Basic
/-!
Points of the map, the displacements between them, and rotations.

A rotation is a pair of cosine and sine; an angle is turned into one before anything is rotated, so
that the laws of rotation need nothing but `cos * cos + sin * sin = 1`.
-/

namespace LabelPlacement

structure Point (α : Type) where
  x : α
  y : α
  deriving BEq, DecidableEq

structure Displacement (α : Type) where
  x : α
  y : α
  deriving BEq, DecidableEq

structure Rotation (α : Type) where
  cos : α
  sin : α

variable {α : Type}

namespace Displacement

section
variable [Scalar α]

def between (start finish : Point α) : Displacement α :=
  ⟨finish.x - start.x, finish.y - start.y⟩

def scale (displacement : Displacement α) (factor : α) : Displacement α :=
  ⟨displacement.x * factor, displacement.y * factor⟩

def dot (left right : Displacement α) : α := left.x * right.x + left.y * right.y

def cross (left right : Displacement α) : α := left.x * right.y - left.y * right.x

def leftNormal (displacement : Displacement α) : Displacement α :=
  ⟨-displacement.y, displacement.x⟩

def lengthSquared (displacement : Displacement α) : α := displacement.dot displacement

def rotate (displacement : Displacement α) (rotation : Rotation α) : Displacement α :=
  ⟨rotation.cos * displacement.x - rotation.sin * displacement.y,
    rotation.sin * displacement.x + rotation.cos * displacement.y⟩

end

section
variable [Trigonometric α]

def length (displacement : Displacement α) : α := Trigonometric.sqrt displacement.lengthSquared

/-- The displacement of length one in the same direction, unless it is too short to have one. -/
def unit? (displacement : Displacement α) : Option (Displacement α) :=
  let length := displacement.length
  if length ≤ Scalar.unitGap then none
  else some ⟨displacement.x / length, displacement.y / length⟩

def angle (displacement : Displacement α) : α :=
  Trigonometric.arctan displacement.y displacement.x

end

end Displacement

namespace Rotation

def ofAngle [Trigonometric α] (angle : α) : Rotation α :=
  ⟨Trigonometric.cos angle, Trigonometric.sin angle⟩

end Rotation

namespace Point

section
variable [Scalar α]

def origin : Point α := ⟨0, 0⟩

def translate (point : Point α) (displacement : Displacement α) : Point α :=
  ⟨point.x + displacement.x, point.y + displacement.y⟩

def fromOrigin (point : Point α) : Displacement α := ⟨point.x, point.y⟩

def rotateAbout (point centre : Point α) (rotation : Rotation α) : Point α :=
  centre.translate ((Displacement.between centre point).rotate rotation)

def midpoint (left right : Point α) : Point α :=
  ⟨(left.x + right.x) * 0.5, (left.y + right.y) * 0.5⟩

end

def distance [Trigonometric α] (left right : Point α) : α :=
  (Displacement.between right left).length

end Point

end LabelPlacement
