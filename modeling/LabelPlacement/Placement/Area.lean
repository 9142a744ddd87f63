import LabelPlacement.Placement.Along
import LabelPlacement.Placement.Around
/-!
Placing labels inside, outside and on the edge of areas.
-/

namespace LabelPlacement

variable {α : Type} [Trigonometric α]

/-- The centres of the cells of a square grid over a box, row by row from below. -/
def gridCenters (box : Box α) (cells : Nat) : List (Point α) :=
  let along (low extent : α) (cell : Nat) : α :=
    low + extent * (Scalar.ofNat cell + 0.5) / Scalar.ofNat cells
  (List.range cells).flatMap fun row =>
    (List.range cells).map fun column =>
      ⟨along box.lower.x box.width column, along box.lower.y box.height row⟩

/-- The candidates inside an area: at its centre, then at the grid points inside from the nearest to
the farthest. -/
def interiorCandidates (polygon : Polygon α) (width height angle : α) (grid : Nat) :
    List (Candidate α) :=
  match polygon.centroid? with
  | none => []
  | some centroid =>
    let inside := (gridCenters polygon.bounds (max grid 1)).filter polygon.contains
    let centers := centroid :: sortByKey (fun center => center.distance centroid) inside
    centers.map fun center => .create center width height angle

def exteriorCandidates (polygon : Polygon α) (width height angle offset : α) :
    List (Candidate α) :=
  let hull := convexHull polygon.vertices
  let center := polygon.centroid?.getD polygon.bounds.center
  Compass.around.map fun position =>
    compassCandidate center hull position width height offset angle

def heightRank (edge : Point α × Point α) : Option α :=
  Scalar.rank [edge.1.y, edge.2.y] (edge.1.midpoint edge.2).y

/-- The candidates centred on the middle of an edge, the highest edge first. -/
def straddleCandidates (polygon : Polygon α) (width height : α) : List (Candidate α) :=
  let fromAbove := polygon.edges.mergeSort fun left right =>
    (compare (heightRank right) (heightRank left)).isLE
  fromAbove.map fun edge => .create (edge.1.midpoint edge.2) width height 0

/-- Whether a candidate lies inside or outside an area as a strategy demands.  While labels may
leave their region, an inner candidate only has to be centred in it. -/
def suitsArea (strategy : AreaStrategy) (polygon : Polygon α) (overregion : Bool)
    (candidate : Candidate α) : Bool :=
  let swallowsVertex := polygon.vertices.any candidate.outline.contains
  if strategy.isInterior then
    if overregion then polygon.contains candidate.center
    else candidate.corners.toList.all polygon.contains && !swallowsVertex
  else if strategy.isExterior then
    !candidate.corners.toList.any polygon.contains && !swallowsVertex
  else true

namespace AreaPlacement

def labelAngle (placement : AreaPlacement α) (polygon : Polygon α) : α :=
  match placement.strategy with
  | .interiorHorizontal | .exteriorHorizontal | .boundaryStraddle => 0
  | .interiorDominantAngle | .exteriorDominantAngle =>
    dominantAngle (convexHull polygon.vertices)
  | .interiorArbitraryAngle | .exteriorArbitraryAngle =>
    Trigonometric.ofDegrees placement.angle

def candidates (placement : AreaPlacement α) (run : Run α) (polygon : Polygon α) :
    List (Candidate α) :=
  let (width, height) := run.extent
  let angle := placement.labelAngle polygon
  let options := run.workspace.options
  if placement.strategy.isInterior then
    interiorCandidates polygon width height angle options.areaGrid
  else if placement.strategy.isExterior then
    run.relaxations.offsetFactors.flatMap fun factor =>
      exteriorCandidates polygon width height angle (options.pointOffset * factor)
  else straddleCandidates polygon width height

/-- Tries to place a label in or around its area; labels of other features, and of areas with fewer
than three vertices, are left alone. -/
def perform (placement : AreaPlacement α) (run : Run α) : Bool × Run α :=
  match run.request.shape with
  | .area polygon =>
    if polygon.vertices.length < 3 then (false, run)
    else
      run.placeFirst
        (suitsArea placement.strategy polygon run.relaxations.overregion)
        (placement.candidates run polygon)
  | _ => (false, run)

end AreaPlacement

end LabelPlacement
