import LabelPlacement.Geometry.Point
/-!
Lengths along lines of points, and the points at a given length.
-/

namespace LabelPlacement

def openEdges {ι : Type} : List ι → List (ι × ι)
  | [] => []
  | first :: rest => (first :: rest).zip rest

namespace Polyline

variable {α : Type} [Trigonometric α]

structure Station (α : Type) where
  point : Point α
  tangent : Displacement α

def length (points : List (Point α)) : α :=
  (openEdges points).foldl (fun sum edge => sum + edge.1.distance edge.2) 0

/-- The station after a given distance along the segments that have a direction; `reached` is the
end of the last one passed. -/
def walk (reached : Option (Station α)) : List (Point α × Point α) → α → Option (Station α)
  | [], _ => reached
  | (start, finish) :: rest, remaining =>
    let segment := Displacement.between start finish
    match segment.unit? with
    | none => walk reached rest remaining
    | some tangent =>
      if remaining ≤ segment.length then
        some ⟨start.translate (tangent.scale remaining), tangent⟩
      else walk (some ⟨finish, tangent⟩) rest (remaining - segment.length)

/-- The station after a given distance along the line.  Distances before the start and beyond the
end give the first and the last station; a line without direction has none. -/
def stationAt? (points : List (Point α)) (distance : α) : Option (Station α) :=
  walk none (openEdges points) (Scalar.larger distance 0)

end Polyline

end LabelPlacement
