import LabelPlacement.Geometry.Hull
/-!
Rectangles turned by an angle, and angles at which text reads upright.
-/

namespace LabelPlacement

structure Corners (α : Type) where
  lowerLeft : Point α
  lowerRight : Point α
  upperRight : Point α
  upperLeft : Point α
  deriving BEq, DecidableEq

def Corners.toList {α : Type} (corners : Corners α) : List (Point α) :=
  [corners.lowerLeft, corners.lowerRight, corners.upperRight, corners.upperLeft]

section
variable {α : Type} [Scalar α]

def Corners.ofCenter (centre : Point α) (width height : α) (rotation : Rotation α) : Corners α :=
  let halfWidth := width * 0.5
  let halfHeight := height * 0.5
  let corner (x y : α) : Point α :=
    (⟨centre.x + x, centre.y + y⟩ : Point α).rotateAbout centre rotation
  { lowerLeft := corner (-halfWidth) (-halfHeight)
    lowerRight := corner halfWidth (-halfHeight)
    upperRight := corner halfWidth halfHeight
    upperLeft := corner (-halfWidth) halfHeight }

end

section
variable {α : Type} [Trigonometric α]

/-- The angle of the same line between a quarter turn down, excluded, and a quarter turn up, so that
text along it never stands on its head. -/
def uprightAngle (angle : α) : α :=
  let reduced := Trigonometric.remainder angle Trigonometric.halfTurn
  if Trigonometric.quarterTurn < reduced then reduced - Trigonometric.halfTurn
  else if reduced ≤ -Trigonometric.quarterTurn then reduced + Trigonometric.halfTurn
  else reduced

def sideRank (side : Point α × Point α) : Option α :=
  Scalar.rank [side.1.x, side.1.y, side.2.x, side.2.y]
    (Displacement.between side.1 side.2).lengthSquared

def dominantAngle (points : List (Point α)) : α :=
  if points.length < 2 then 0
  else
    match lastLargest? sideRank (closedEdges points) with
    | none => 0
    | some side => uprightAngle (Displacement.between side.1 side.2).angle

end

end LabelPlacement
