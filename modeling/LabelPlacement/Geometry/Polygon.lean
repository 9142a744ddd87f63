import LabelPlacement.Geometry.Box
/-!
Polygons given by their vertices in order, the last one joined to the first.

A polygon keeps its bounding box beside the vertices.  `Polygon.ofVertices` computes it, a
displacement moves it along, and a rotation computes it anew; only a polygon read from outside can
carry a box of its own.
-/

namespace LabelPlacement

structure Polygon (α : Type) where
  vertices : List (Point α)
  bounds : Box α
  deriving BEq, DecidableEq

/-- The edges of a closed chain of points: from each point to the next, and from the last one back
to the first. -/
def closedEdges {ι : Type} : List ι → List (ι × ι)
  | [] => []
  | first :: rest => (first :: rest).zip (rest ++ [first])

namespace Polygon

variable {α : Type} [Scalar α]

def ofVertices (vertices : List (Point α)) : Polygon α := ⟨vertices, .ofPoints vertices⟩

def isEmpty (polygon : Polygon α) : Bool := polygon.vertices.isEmpty

def withFreshBounds (polygon : Polygon α) : Polygon α := ofVertices polygon.vertices

def translate (polygon : Polygon α) (displacement : Displacement α) : Polygon α :=
  ⟨polygon.vertices.map (·.translate displacement), polygon.bounds.translated displacement⟩

def rotateAbout (polygon : Polygon α) (centre : Point α) (rotation : Rotation α) : Polygon α :=
  ofVertices (polygon.vertices.map (·.rotateAbout centre rotation))

def edges (polygon : Polygon α) : List (Point α × Point α) := closedEdges polygon.vertices

def edgeCross (edge : Point α × Point α) : α :=
  edge.1.x * edge.2.y - edge.2.x * edge.1.y

/-- The signed area, positive for a counterclockwise boundary. -/
def signedArea (polygon : Polygon α) : α :=
  polygon.edges.foldl (fun sum edge => sum + edgeCross edge) 0 * 0.5

/-- The centre of mass; a polygon without area has that of its bounding box, one without vertices
has none. -/
def centroid? (polygon : Polygon α) : Option (Point α) :=
  if polygon.isEmpty then none
  else
    let area := polygon.signedArea
    if Scalar.magnitude area ≤ Scalar.unitGap then some polygon.bounds.center
    else
      let sum := polygon.edges.foldl
        (fun sum edge =>
          sum.translate
            ((edge.1.translate edge.2.fromOrigin).fromOrigin.scale (edgeCross edge)))
        Point.origin
      some ⟨sum.x / (6 * area), sum.y / (6 * area)⟩

/-- Whether the ray from a point to the right crosses an edge.  An edge has its lower end but not
its upper one, so a vertex on the ray counts for one of its two edges, for both or for neither. -/
def crosses (point : Point α) (edge : Point α × Point α) : Bool :=
  let (start, finish) := edge
  if decide (point.y < start.y) != decide (point.y < finish.y) then
    let along := (point.y - start.y) / (finish.y - start.y)
    decide (point.x < start.x + along * (finish.x - start.x))
  else false

def crossesOddly (polygon : Polygon α) (point : Point α) : Bool :=
  polygon.edges.foldl (fun inside edge => inside != crosses point edge) false

/-- Whether a point lies inside.  Points outside the bounding box are turned away first. -/
def contains (polygon : Polygon α) (point : Point α) : Bool :=
  polygon.bounds.contains point && polygon.crossesOddly point

end Polygon

end LabelPlacement
