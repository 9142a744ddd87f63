import LabelPlacement.Scalar.Basic
/-!
The commands that try to place a label: along a line, around a point, in or around an area, with a
leader line; and the command that settles a label for which everything else has failed.
-/

namespace LabelPlacement

inductive LineSide
  | above
  | below
  | middle
  | left
  | right
  deriving BEq, DecidableEq

def LineSide.ordinal : LineSide → Nat
  | .above => 0
  | .below => 1
  | .middle => 2
  | .left => 3
  | .right => 4

inductive PositionUnit
  | absolute
  | percent
  deriving BEq, DecidableEq

structure LinePosition (α : Type) where
  value : α
  unit : PositionUnit
  deriving BEq, DecidableEq

/-- The distance from the start of a line of the given length, kept within the line. -/
def LinePosition.resolve {α : Type} [Scalar α] (position : LinePosition α) (length : α) : α :=
  let distance :=
    match position.unit with
    | .absolute => position.value
    | .percent => length * position.value / 100
  Scalar.clamp distance 0 (Scalar.larger length 0)

structure LinePlacement (α : Type) where
  side : LineSide
  initial : LinePosition α
  minimum : LinePosition α
  maximum : LinePosition α
  deriving BEq, DecidableEq

def LinePlacement.onSide {α : Type} [Scalar α] (side : LineSide) : LinePlacement α :=
  { side
    initial := ⟨50, .percent⟩
    minimum := ⟨0, .percent⟩
    maximum := ⟨100, .percent⟩ }

inductive Compass
  | north
  | northEast
  | east
  | southEast
  | south
  | southWest
  | west
  | northWest
  | onPoint
  deriving BEq, DecidableEq

namespace Compass

def around : List Compass :=
  [northEast, east, north, southEast, northWest, west, south, southWest]

def direction : Compass → Int × Int
  | north => (0, 1)
  | northEast => (1, 1)
  | east => (1, 0)
  | southEast => (1, -1)
  | south => (0, -1)
  | southWest => (-1, -1)
  | west => (-1, 0)
  | northWest => (-1, 1)
  | onPoint => (0, 0)

end Compass

/-- Places a label at one of several positions around a point; the angle is in degrees. -/
structure PointPlacement (α : Type) where
  positions : List Compass
  angle : α
  deriving BEq, DecidableEq

def PointPlacement.around {α : Type} [Scalar α] : PointPlacement α :=
  { positions := Compass.around, angle := 0 }

/-- Placements on the point alone have a number of their own. -/
def PointPlacement.ordinal {α : Type} (placement : PointPlacement α) : Nat :=
  if placement.positions = [.onPoint] then 1 else 0

inductive AreaStrategy
  | interiorHorizontal
  | interiorDominantAngle
  | interiorArbitraryAngle
  | exteriorHorizontal
  | exteriorDominantAngle
  | exteriorArbitraryAngle
  | boundaryStraddle
  deriving BEq, DecidableEq

namespace AreaStrategy

def ordinal : AreaStrategy → Nat
  | interiorHorizontal => 0
  | interiorDominantAngle => 1
  | interiorArbitraryAngle => 2
  | exteriorHorizontal => 3
  | exteriorDominantAngle => 4
  | exteriorArbitraryAngle => 5
  | boundaryStraddle => 6

def isInterior : AreaStrategy → Bool
  | interiorHorizontal | interiorDominantAngle | interiorArbitraryAngle => true
  | _ => false

def isExterior : AreaStrategy → Bool
  | exteriorHorizontal | exteriorDominantAngle | exteriorArbitraryAngle => true
  | _ => false

end AreaStrategy

/-- Places a label in or around an area; the angle, in degrees, counts for the strategies with an
arbitrary angle. -/
structure AreaPlacement (α : Type) where
  strategy : AreaStrategy
  angle : α
  deriving BEq, DecidableEq

inductive FailureAction
  | suppress
  | force
  | forceWithLeader
  deriving BEq, DecidableEq

def FailureAction.ordinal : FailureAction → Nat
  | .suppress => 0
  | .force => 1
  | .forceWithLeader => 2

inductive LeaderTiming
  | immediate
  | deferred
  deriving BEq, DecidableEq

structure LeaderPlacement (α : Type) where
  timing : LeaderTiming
  maxLength : Option α
  deriving BEq, DecidableEq

end LabelPlacement
