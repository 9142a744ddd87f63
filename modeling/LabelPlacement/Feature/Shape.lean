import LabelPlacement.Geometry.Polygon
import LabelPlacement.Geometry.Polyline
/-!
The features that labels belong to: points, lines and areas.
-/

namespace LabelPlacement

inductive FeatureKind
  | point
  | line
  | area
  deriving BEq, DecidableEq

def FeatureKind.name : FeatureKind → String
  | .point => "point"
  | .line => "line"
  | .area => "area"

def FeatureKind.all : List FeatureKind := [.point, .line, .area]

inductive Shape (α : Type)
  | point (position : Point α)
  | line (points : List (Point α))
  | area (polygon : Polygon α)
  deriving BEq, DecidableEq

namespace Shape

variable {α : Type}

def kind : Shape α → FeatureKind
  | .point _ => .point
  | .line _ => .line
  | .area _ => .area

def bounds [Scalar α] : Shape α → Box α
  | .point position => ⟨position, position⟩
  | .line points => .ofPoints points
  | .area polygon => polygon.bounds

/-- The point that a label would best stand at: the point itself, the middle of a line or the centre
of an area. -/
def anchor? [Trigonometric α] : Shape α → Option (Point α)
  | .point position => some position
  | .line points =>
    (Polyline.stationAt? points (Polyline.length points * 0.5)).map (·.point)
  | .area polygon => polygon.centroid?

end Shape

end LabelPlacement
