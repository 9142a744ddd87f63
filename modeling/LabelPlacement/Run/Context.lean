import LabelPlacement.Label.Metrics
import LabelPlacement.Label.Request
import LabelPlacement.Placement.Candidate
import LabelPlacement.Placement.Index
/-!
The state in which commands are carried out for one label request.

A run works on the workspace that all requests share, on the request itself, and on what only this
run knows: the constraints that are relaxed at the moment, the first candidate that was tried, and
the commands visited so far.
-/

namespace LabelPlacement

/-- The constraints that are relaxed at the moment.  The overhang is a share of the label's length
in percent. -/
structure Relaxations (α : Type) where
  offset : Bool
  overhang : Option α
  overline : Bool
  overregion : Bool
  bump : Bool
  deriving BEq

namespace Relaxations

variable {α : Type}

def none : Relaxations α :=
  { offset := false, overhang := .none, overline := false, overregion := false, bump := false }

def offsetFactors [Scalar α] (relaxations : Relaxations α) : List α :=
  if relaxations.offset then [2, 3] else [1]

end Relaxations

structure PlacementOptions (α : Type) where
  pointOffset : α
  /-- The step of the search along a line, as a share of the label's width. -/
  lineSearchStep : α
  leaderMaxLength : α
  leaderStep : α
  symbolGap : α
  areaGrid : Nat
  minFontSize : α

def PlacementOptions.standard {α : Type} [Scalar α] : PlacementOptions α :=
  { pointOffset := 1, lineSearchStep := 0.25, leaderMaxLength := 30, leaderStep := 5
    symbolGap := 0.5, areaGrid := 5, minFontSize := 1 }

structure DeferredLeader (α : Type) where
  request : Nat
  maxLength : Option α
  deriving BEq

structure Workspace (α : Type) where
  index : SpatialIndex α
  metrics : Metrics α
  options : PlacementOptions α
  deferred : List (DeferredLeader α)

namespace Workspace

variable {α : Type}

def empty [Scalar α] (options : PlacementOptions α) : Workspace α :=
  { index := .empty, metrics := .standard, options, deferred := [] }

/-- Puts a leader line off; only the last such wish of a request counts. -/
def deferLeader (workspace : Workspace α) (request : Nat) (maxLength : Option α) : Workspace α :=
  { workspace with
      deferred := workspace.deferred.filter (·.request != request) ++ [{ request, maxLength }] }

end Workspace

structure Visit (α : Type) where
  position : Nat
  command : Nat
  request : Request α

/-- The state of a run.  The visits are kept with the latest one first. -/
structure Run (α : Type) where
  workspace : Workspace α
  request : Request α
  relaxations : Relaxations α
  ideal : Option (Candidate α)
  visits : List (Visit α)

namespace Run

variable {α : Type}

def start (workspace : Workspace α) (request : Request α) : Run α :=
  { workspace, request, relaxations := .none, ideal := none, visits := [] }

def history (run : Run α) : List Nat := (run.visits.map (·.command)).reverse

def visit (run : Run α) (position command : Nat) : Run α :=
  { run with visits := { position, command, request := run.request } :: run.visits }

def mapRequest (run : Run α) (change : Request α → Request α) : Run α :=
  { run with request := change run.request }

/-- Notes the first candidate of the run; later ones do not count. -/
def noteIdeal (run : Run α) (candidate : Candidate α) : Run α :=
  { run with ideal := some (run.ideal.getD candidate) }

section
variable [Scalar α]

def linesExtent (metrics : Metrics α) (fontSize : α) (lines : List String) : α × α :=
  lines.foldl
    (fun (width, height) line =>
      (Scalar.larger width (metrics.width line fontSize), height + metrics.height fontSize))
    (0, 0)

def withSymbols (gap : α) (text : α × α) (symbols : List (SymbolComponent α)) : α × α :=
  symbols.foldl
    (fun (width, height) symbol =>
      ((if 0 < width then width + gap else width) + symbol.width,
        Scalar.larger height symbol.height))
    text

def extentOf (workspace : Workspace α) (request : Request α) : α × α :=
  withSymbols workspace.options.symbolGap
    (linesExtent workspace.metrics request.working.fontSize request.lines) request.visibleSymbols

def extent (run : Run α) : α × α := extentOf run.workspace run.request

def clearance (run : Run α) (kind : BufferKind) : α := Scalar.larger (run.request.buffer kind) 0

/-- Whether a box on the map is in the way of a label in given bounds.  The label's own box and the
boxes of its own feature never are; lines and edges are not while they may be crossed. -/
def isInTheWay (run : Run α) (bounds : Box α) (entry : Occupied α) : Bool :=
  match entry.owner with
  | .label request =>
    request != run.request.id && (bounds.expanded (run.clearance .label)).intersects entry.bounds
  | .feature feature kind =>
    feature != run.request.feature &&
      !(run.relaxations.overline && (kind == .lineSegment || kind == .areaEdge)) &&
      (bounds.expanded (run.clearance .feature)).intersects entry.bounds

/-- The boxes on the map in the way of a label in given bounds, searched for within the larger of
the two clearances. -/
def conflicts (run : Run α) (bounds : Box α) : List (Occupied α) :=
  let reach := Scalar.larger (run.clearance .label) (run.clearance .feature)
  (run.workspace.index.query (bounds.expanded reach)).filter (run.isInTheWay bounds)

end

/-- Records a placed label and enters its box in place of an earlier one. -/
def place (run : Run α) (candidate : Candidate α) (status : Status)
    (leader : Option (LeaderLine α)) : Run α :=
  let request := run.request
  let placement : Placement α :=
    { corners := candidate.corners
      bounds := candidate.bounds
      angle := candidate.angle
      fontSize := request.working.fontSize
      lines := request.lines
      hidden := request.hiddenElements
      buffers := request.working.buffers
      leader }
  let index := (run.workspace.index.removeLabel request.id).insert
    ⟨.label request.id, candidate.bounds⟩
  { run with
      workspace := { run.workspace with index }
      request := { request with placement := some placement, status } }

end Run

end LabelPlacement
