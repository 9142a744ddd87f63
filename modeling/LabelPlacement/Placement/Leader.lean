import LabelPlacement.Placement.Along
import LabelPlacement.Placement.Around
/-!
Placing labels with leader lines, and settling labels that fit nowhere.

The search for a leader goes around the feature's anchor in rings of growing radius; in each ring
the eight positions of the compass are tried, and the line ends at the point of the label's box
nearest to the anchor.
-/

namespace LabelPlacement

variable {α : Type} [Trigonometric α]

structure LeaderPlace (α : Type) where
  candidate : Candidate α
  leader : LeaderLine α

def LeaderLine.toBox (anchor : Point α) (box : Box α) : LeaderLine α :=
  { start := anchor, finish := box.nearestTo anchor }

/-- The candidate of a ring in a direction: its near side lies on the ring. -/
def leaderCandidate (anchor : Point α) (width height radius : α) (position : Compass) :
    Option (Candidate α) :=
  let step : Displacement α := position.displacement
  step.unit?.map fun direction =>
    let onRing := anchor.translate (direction.scale radius)
    .create (onRing.translate ⟨step.x * width * 0.5, step.y * height * 0.5⟩) width height 0

def Run.onRing? (run : Run α) (anchor : Point α) (width height radius : α) :
    Option (LeaderPlace α) :=
  Compass.around.findSome? fun position =>
    match leaderCandidate anchor width height radius position with
    | none => none
    | some candidate =>
      (run.resolve? candidate).map fun resolved =>
        { candidate := resolved, leader := .toBox anchor resolved.bounds }

/-- The first place on the rings from a radius up to the greatest one; `rings` bounds their
number.  Without a bound the search need not come back, which `Run.leaderEnding` tells. -/
def Run.onRings? (run : Run α) (anchor : Point α) (width height step maxRadius : α) :
    (rings : Nat) → (radius : α) → Option (LeaderPlace α)
  | 0, _ => none
  | rings + 1, radius =>
    if radius ≤ maxRadius then
      match run.onRing? anchor width height radius with
      | some place => some place
      | none => run.onRings? anchor width height step maxRadius rings (radius + step)
    else none

/-- The place for a label with a leader line of at most the given length, or of the length that the
settings allow. -/
def Run.findLeader? (run : Run α) (maxLength : Option α) : Option (LeaderPlace α) :=
  match run.request.shape.anchor? with
  | none => none
  | some anchor =>
    let (width, height) := run.extent
    let options := run.workspace.options
    let maxLength := maxLength.getD options.leaderMaxLength
    let step := options.leaderStep
    if step ≤ 0 ∨ maxLength ≤ 0 then none
    else
      let maxRadius := maxLength + tolerance
      run.onRings? anchor width height step maxRadius
        (Scalar.wholePart (maxRadius / step) + 2) step

def Run.placeWithLeader (run : Run α) (maxLength : Option α) (status : Status) : Bool × Run α :=
  match run.findLeader? maxLength with
  | some place => (true, run.place place.candidate status (some place.leader))
  | none => (false, run)

def Run.setStatus (run : Run α) (status : Status) : Run α :=
  run.mapRequest fun request => { request with status }

def LeaderPlacement.perform (placement : LeaderPlacement α) (run : Run α) : Bool × Run α :=
  match placement.timing with
  | .immediate => run.placeWithLeader placement.maxLength .placedWithLeader
  | .deferred =>
    let workspace := run.workspace.deferLeader run.request.id placement.maxLength
    (true, { run with workspace }.setStatus .leaderDeferred)

/-- The candidate for a label that has to be placed in spite of conflicts: the first one that was
tried, or one centred on the feature's anchor. -/
def Run.forcedCandidate? (run : Run α) : Option (Candidate α) :=
  match run.ideal with
  | some candidate => some candidate
  | none =>
    run.request.shape.anchor?.map fun anchor =>
      .create anchor run.extent.1 run.extent.2 0

/-- The place for a label that has to be placed with a leader line: one without conflicts if there
is any, or else the forced candidate. -/
def Run.forcedLeader? (run : Run α) : Option (LeaderPlace α) :=
  match run.findLeader? none with
  | some place => some place
  | none =>
    match run.forcedCandidate?, run.request.shape.anchor? with
    | some candidate, some anchor =>
      some { candidate, leader := .toBox anchor candidate.bounds }
    | _, _ => none

/-- Settles a label that fits nowhere: it is suppressed, or placed in spite of conflicts if there is
any place for it at all. -/
def FailureAction.perform (action : FailureAction) (run : Run α) : Run α :=
  match action with
  | .suppress => run.setStatus .suppressed
  | .force =>
    match run.forcedCandidate? with
    | some candidate => run.place candidate .forced none
    | none => run.setStatus .suppressed
  | .forceWithLeader =>
    match run.forcedLeader? with
    | some place => run.place place.candidate .forcedWithLeader (some place.leader)
    | none => run.setStatus .suppressed

end LabelPlacement
