import LabelPlacement.Feature.Shape
import LabelPlacement.Feature.Symbol
import LabelPlacement.Scalar.Select
/-!
The boxes on the map that labels must not run into: labels that have been placed, and the parts of
features.

There is one kind of index, a list that every query looks through from the front.  An index of
another kind could answer with the same boxes in another order.
-/

namespace LabelPlacement

inductive ObstacleKind
  | point
  | lineSegment
  | areaEdge
  deriving BEq, DecidableEq

inductive Owner
  | label (request : Nat)
  | feature (feature : Nat) (kind : ObstacleKind)
  deriving BEq, DecidableEq

def Owner.feature? : Owner → Option Nat
  | .feature owner _ => some owner
  | .label _ => none

structure Occupied (α : Type) where
  owner : Owner
  bounds : Box α
  deriving BEq, DecidableEq

structure SpatialIndex (α : Type) where
  entries : List (Occupied α)
  deriving BEq, DecidableEq

/-- The distance from a point to a box; the empty box is beyond everything. -/
def Box.distanceTo {α : Type} [Trigonometric α] (box : Box α) (point : Point α) : α :=
  if box.isEmpty then Scalar.infinity else point.distance (box.nearestTo point)

namespace SpatialIndex

variable {α : Type}

def empty : SpatialIndex α := ⟨[]⟩

def size (index : SpatialIndex α) : Nat := index.entries.length

def insert (index : SpatialIndex α) (entry : Occupied α) : SpatialIndex α :=
  ⟨index.entries ++ [entry]⟩

def insertAll (index : SpatialIndex α) (entries : List (Occupied α)) : SpatialIndex α :=
  ⟨index.entries ++ entries⟩

def removeLabel (index : SpatialIndex α) (request : Nat) : SpatialIndex α :=
  ⟨index.entries.filter (·.owner != .label request)⟩

def query [Scalar α] (index : SpatialIndex α) (area : Box α) : List (Occupied α) :=
  index.entries.filter fun entry => area.intersects entry.bounds

def distanceRank [Trigonometric α] (point : Point α) (entry : Occupied α) : Option α :=
  Scalar.rank [point.x, point.y] (entry.bounds.distanceTo point)

/-- The box nearest to a point; of equally near ones, the first. -/
def nearest? [Trigonometric α] (index : SpatialIndex α) (point : Point α) :
    Option (Occupied α) :=
  firstLeast? (distanceRank point) index.entries

end SpatialIndex

def edgeObstacle {α : Type} [Scalar α] (feature : Nat) (kind : ObstacleKind)
    (edge : Point α × Point α) : Occupied α :=
  ⟨.feature feature kind, .ofPoints [edge.1, edge.2]⟩

/-- The boxes of a feature: its point or the box of its symbol, each segment of its line, or each
edge of its area. -/
def featureObstacles {α : Type} [Scalar α] (feature : Nat) (shape : Shape α)
    (symbol : Option (PointSymbol α)) : Except OutlineError (List (Occupied α)) :=
  match shape with
  | .point position =>
    match symbol with
    | none => .ok [⟨.feature feature .point, ⟨position, position⟩⟩]
    | some symbol => do return [⟨.feature feature .point, (← symbol.shape).bounds⟩]
  | .line points => .ok ((openEdges points).map (edgeObstacle feature .lineSegment))
  | .area polygon => .ok (polygon.edges.map (edgeObstacle feature .areaEdge))

end LabelPlacement
