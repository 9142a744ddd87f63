import LabelPlacement.Command.Build
import LabelPlacement.Geometry.Hull
import LabelPlacement.Placement.Settle
/-!
Placing labels around points and symbols.

A label stands outside the point of the symbol's hull that lies farthest in its direction, at a gap
from it, and the whole arrangement is turned by the label's angle.
-/

namespace LabelPlacement

variable {α : Type}

def Compass.displacement [Scalar α] (position : Compass) : Displacement α :=
  ⟨Scalar.ofInt position.direction.1, Scalar.ofInt position.direction.2⟩

section
variable [Trigonometric α]

/-- The point that a label stands next to: the farthest point of the hull in its direction, or the
given point if there is no hull. -/
def compassAnchor (point : Point α) (hull : List (Point α)) (position : Compass)
    (rotation : Rotation α) : Point α :=
  match (position.displacement.rotate rotation).unit? with
  | none => point
  | some direction => (supportPoint? hull direction).getD point

/-- The candidate at a position around a point or hull.  On the point itself, the label is centred
on the hull's bounding box. -/
def compassCandidate (point : Point α) (hull : List (Point α)) (position : Compass)
    (width height offset angle : α) : Candidate α :=
  if position = .onPoint then
    let center := if hull.isEmpty then point else (Box.ofPoints hull).center
    .create center width height angle
  else
    let rotation := Rotation.ofAngle angle
    let step : Displacement α := position.displacement
    let reach : Displacement α :=
      ⟨step.x * (width * 0.5 + offset), step.y * (height * 0.5 + offset)⟩
    .create ((compassAnchor point hull position rotation).translate (reach.rotate rotation))
      width height angle

def PointPlacement.candidates (placement : PointPlacement α) (run : Run α) (point : Point α)
    (hull : List (Point α)) : List (Candidate α) :=
  let (width, height) := run.extent
  let angle := Trigonometric.ofDegrees placement.angle
  run.relaxations.offsetFactors.flatMap fun factor =>
    placement.positions.map fun position =>
      compassCandidate point hull position width height
        (run.workspace.options.pointOffset * factor) angle

/-- Tries to place a label around its point; labels of other features are left alone. -/
def PointPlacement.perform (placement : PointPlacement α) (run : Run α) :
    Except (LabelingError α) Bool × Run α :=
  match run.request.shape with
  | .point point =>
    match run.request.symbol.elim (.ok []) fun symbol => symbol.shape.map (·.hull) with
    | .error error => (.error (.outline error), run)
    | .ok hull =>
      let (found, run) := run.placeFirst (fun _ => true) (placement.candidates run point hull)
      (.ok found, run)
  | _ => (.ok false, run)

end

end LabelPlacement
