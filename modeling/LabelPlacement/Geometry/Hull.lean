import LabelPlacement.Scalar.Select
import LabelPlacement.Geometry.Polygon
/-!
Convex hulls and the points of a hull that lie farthest in a direction.

The points are sorted from left to right; one pass gives the lower chain, the same pass over the
reversed order the upper one.  A chain drops its last point whenever the next one does not turn
strictly left, so neither chain keeps a point in the middle of a straight side.
-/

namespace LabelPlacement

variable {α : Type} [Scalar α]

namespace Hull

/-- Whether the path over three points turns strictly left at the second. -/
def turnsLeft (first second third : Point α) : Bool :=
  !decide ((Displacement.between first second).cross (Displacement.between first third) ≤ 0)

/-- The chain, its newest point first, without the points at which the way to `point` does not turn
left. -/
def trim (point : Point α) : List (Point α) → List (Point α)
  | second :: first :: rest =>
    if turnsLeft first second point then second :: first :: rest else trim point (first :: rest)
  | chain => chain

/-- The chain over a sorted list of points, its newest point first. -/
def chain (points : List (Point α)) : List (Point α) :=
  points.foldl (fun chain point => point :: trim point chain) []

def comesBefore (left right : Point α) : Bool :=
  ((compare left.x right.x).then (compare left.y right.y)).isLE

def sorted (points : List (Point α)) : List (Point α) :=
  (points.mergeSort comesBefore).eraseReps

end Hull

/-- The convex hull in counterclockwise order, without points in the middle of a side.  Fewer than
three distinct points are their own hull. -/
def convexHull (points : List (Point α)) : List (Point α) :=
  let sorted := Hull.sorted points
  if sorted.length < 3 then sorted
  else
    (Hull.chain sorted).tail.reverse ++ (Hull.chain sorted.reverse).tail.reverse

def Point.reach (direction : Displacement α) (point : Point α) : Option α :=
  Scalar.rank [point.x, point.y, direction.x, direction.y] (point.fromOrigin.dot direction)

def supportPoint? (points : List (Point α)) (direction : Displacement α) : Option (Point α) :=
  lastLargest? (Point.reach direction) points

end LabelPlacement
