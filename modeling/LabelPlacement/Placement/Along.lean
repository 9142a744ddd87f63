import LabelPlacement.Command.Placing
import LabelPlacement.Geometry.Polyline
import LabelPlacement.Placement.Settle
/-!
Placing labels along lines.

The search starts at the initial position and goes on by equal steps to both sides in turn; on each
side the last position is the end of the allowed range.
-/

namespace LabelPlacement

variable {α : Type}

section
variable [Scalar α]

structure SearchRange (α : Type) where
  initial : α
  start : α
  finish : α
  step : α

def tolerance : α := 1e-9

/-- The elements of two lists in turn, and then what is left of the longer one. -/
def alternate {ι : Type} : List ι → List ι → List ι
  | [], others => others
  | first :: rest, others => first :: alternate others rest
termination_by left right => left.length + right.length

/-- The positions `initial + step`, `initial + 2 * step` and so on below the end of the range, and
then the end itself; `count` is the number of the next position. -/
def positionsAhead (initial finish step : α) : (bound count : Nat) → List α
  | 0, _ => [finish]
  | bound + 1, count =>
    let position := initial + Scalar.ofNat count * step
    if finish - tolerance ≤ position then [finish]
    else position :: positionsAhead initial finish step bound (count + 1)

/-- The positions `initial - step`, `initial - 2 * step` and so on above the start of the range, and
then the start itself; `count` is the number of the next position. -/
def positionsBehind (initial start step : α) : (bound count : Nat) → List α
  | 0, _ => [start]
  | bound + 1, count =>
    let position := initial - Scalar.ofNat count * step
    if position ≤ start + tolerance then [start]
    else position :: positionsBehind initial start step bound (count + 1)

def positionsWithin (initial start finish step : α) (rounds : Nat) : List α :=
  let ahead :=
    if initial < finish - tolerance then positionsAhead initial finish step rounds 1 else []
  let behind :=
    if start + tolerance < initial then positionsBehind initial start step rounds 1 else []
  initial :: alternate ahead behind

/-- The positions of a search between `start` and `finish`.  The number of steps that fit into the
range bounds the search on both sides.  In a range without end that number says nothing, and the
search does not come back, which `SearchRange.ending` tells. -/
def searchPositions (initial start finish step : α) : List α :=
  positionsWithin initial start finish step (Scalar.wholePart ((finish - start) / step) + 2)

end

section
variable [Trigonometric α]

/-- The candidate at a station of a line.  Above, below and on the line the label follows its
direction; to the left and right it stays upright. -/
def lineCandidate (side : LineSide) (station : Polyline.Station α) (width height gap : α) :
    Candidate α :=
  let angle := uprightAngle station.tangent.angle
  let along : Displacement α := ⟨Trigonometric.cos angle, Trigonometric.sin angle⟩
  match side with
  | .above =>
    .create (station.point.translate (along.leftNormal.scale (height * 0.5 + gap)))
      width height angle
  | .below =>
    .create (station.point.translate (along.leftNormal.scale (-(height * 0.5 + gap))))
      width height angle
  | .middle => .create station.point width height angle
  | .left => .create (station.point.translate ⟨-(width * 0.5 + gap), 0⟩) width height 0
  | .right => .create (station.point.translate ⟨width * 0.5 + gap, 0⟩) width height 0

namespace LinePlacement

def searchRange (placement : LinePlacement α) (searchStep length width : α) : SearchRange α :=
  let first := placement.minimum.resolve length
  let second := placement.maximum.resolve length
  let start := Scalar.smaller first second
  let finish := Scalar.larger first second
  { initial := Scalar.clamp (placement.initial.resolve length) start finish
    start, finish, step := Scalar.larger (width * searchStep) (length / 100) }

def positions (placement : LinePlacement α) (searchStep length width : α) : List α :=
  let range := placement.searchRange searchStep length width
  searchPositions range.initial range.start range.finish range.step

def staysOnLine (length width overhang position : α) : Bool :=
  !(decide (position - width * 0.5 < -overhang - tolerance) ||
    decide (length + overhang + tolerance < position + width * 0.5))

def allowedOverhang (relaxations : Relaxations α) (width : α) : α :=
  relaxations.overhang.elim 0 fun percent => width * percent / 100

def candidatesAt (placement : LinePlacement α) (run : Run α) (points : List (Point α))
    (positions : List α) : List (Candidate α) :=
  let length := Polyline.length points
  let (width, height) := run.extent
  let options := run.workspace.options
  let suitable :=
    positions.filter (staysOnLine length width (allowedOverhang run.relaxations width))
  let stations := suitable.filterMap (Polyline.stationAt? points)
  run.relaxations.offsetFactors.flatMap fun factor =>
    stations.map fun station =>
      lineCandidate placement.side station width height (options.pointOffset * factor)

def candidates (placement : LinePlacement α) (run : Run α) (points : List (Point α)) :
    List (Candidate α) :=
  placement.candidatesAt run points
    (placement.positions run.workspace.options.lineSearchStep (Polyline.length points)
      run.extent.1)

/-- Tries to place a label along its line; labels of other features, and of lines without length,
are left alone. -/
def perform (placement : LinePlacement α) (run : Run α) : Bool × Run α :=
  match run.request.shape with
  | .line points =>
    if Polyline.length points ≤ tolerance then (false, run)
    else run.placeFirst (fun _ => true) (placement.candidates run points)
  | _ => (false, run)

end LinePlacement

end

end LabelPlacement
