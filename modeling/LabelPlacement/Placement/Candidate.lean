import LabelPlacement.Geometry.Rectangle
/-!
Candidates: boxes that a label might be placed in.
-/

namespace LabelPlacement

structure Candidate (α : Type) where
  center : Point α
  width : α
  height : α
  angle : α
  corners : Corners α
  bounds : Box α
  deriving BEq

namespace Candidate

variable {α : Type}

def create [Trigonometric α] (center : Point α) (width height angle : α) : Candidate α :=
  let corners := Corners.ofCenter center width height (.ofAngle angle)
  { center, width, height, angle, corners, bounds := .ofPoints corners.toList }

def translated [Trigonometric α] (candidate : Candidate α) (displacement : Displacement α) :
    Candidate α :=
  create (candidate.center.translate displacement) candidate.width candidate.height
    candidate.angle

def outline [Scalar α] (candidate : Candidate α) : Polygon α := .ofVertices candidate.corners.toList

end Candidate

end LabelPlacement
