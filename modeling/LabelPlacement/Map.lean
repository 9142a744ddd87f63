import LabelPlacement.Run.Runner
import LabelPlacement.Sequence.Validation
/-!
Label maps: the classes of labels with their sequences, the obstacles and the requests, and the run
that places all requests in the order of their priority.

A run of the map may be stopped between two requests, by an interruption or by its time limit.  Both
come from outside and are given as `Conditions`: what is seen before each request of the run.
-/

namespace LabelPlacement

structure LabelingOptions where
  timeLimit : Option Nat := none
  placesDeferredLeaders : Bool := true

structure Summary where
  total : Nat := 0
  placed : Nat := 0
  placedWithLeader : Nat := 0
  forced : Nat := 0
  suppressed : Nat := 0
  deferred : Nat := 0
  unplaced : Nat := 0
  errors : Nat := 0
  interrupted : Bool := false
  timedOut : Bool := false
  deriving BEq, DecidableEq

def Summary.tally (summary : Summary) (status : Status) : Summary :=
  match status with
  | .placed => { summary with placed := summary.placed + 1 }
  | .placedWithLeader => { summary with placedWithLeader := summary.placedWithLeader + 1 }
  | .forced | .forcedWithLeader => { summary with forced := summary.forced + 1 }
  | .suppressed => { summary with suppressed := summary.suppressed + 1 }
  | .leaderDeferred => { summary with deferred := summary.deferred + 1 }
  | .unplaced => { summary with unplaced := summary.unplaced + 1 }

/-- What is seen from outside before each request of a run, counted from zero: whether an
interruption is wanted, and how many milliseconds have passed. -/
structure Conditions where
  interrupted : Nat → Bool
  elapsed : Nat → Nat

inductive Stop
  | interrupted
  | timedOut
  deriving BEq, DecidableEq

def Conditions.stop? (conditions : Conditions) (options : LabelingOptions) (turn : Nat) :
    Option Stop :=
  if conditions.interrupted turn then some .interrupted
  else if options.timeLimit.any (· ≤ conditions.elapsed turn) then some .timedOut
  else none

structure LabelMap (α : Type) where
  classes : List (String × Sequence α)
  requests : List (Request α)
  obstacles : List Nat
  workspace : Workspace α
  options : LabelingOptions
  interrupt : Bool
  nextRequestId : Nat

namespace LabelMap

variable {α : Type}

def empty [Scalar α] (placement : PlacementOptions α) (options : LabelingOptions) : LabelMap α :=
  { classes := [], requests := [], obstacles := [], workspace := .empty placement, options
    interrupt := false, nextRequestId := 1 }

def insertClass (name : String) (sequence : Sequence α) :
    List (String × Sequence α) → List (String × Sequence α)
  | [] => [(name, sequence)]
  | (first, found) :: rest =>
    if name < first then (name, sequence) :: (first, found) :: rest
    else if name = first then (name, sequence) :: rest
    else (first, found) :: insertClass name sequence rest

def defineClass (map : LabelMap α) (name : String) (sequence : Sequence α) : LabelMap α :=
  { map with classes := insertClass name sequence map.classes }

def class? (map : LabelMap α) (name : String) : Option (Sequence α) := map.classes.lookup name

/-- Enters the boxes of a feature, once for each feature. -/
def addObstacle [Scalar α] (map : LabelMap α) (feature : Nat) (shape : Shape α)
    (symbol : Option (PointSymbol α)) : Except OutlineError (LabelMap α) :=
  if map.obstacles.contains feature then .ok map
  else do
    let entries ← featureObstacles feature shape symbol
    let workspace := { map.workspace with index := map.workspace.index.insertAll entries }
    return { map with workspace, obstacles := feature :: map.obstacles }

def addRequest [Scalar α] (map : LabelMap α) (make : Nat → Request α) :
    Except OutlineError (LabelMap α) := do
  let request := make map.nextRequestId
  let map ← map.addObstacle request.feature request.shape request.symbol
  return { map with
    requests := map.requests ++ [request], nextRequestId := map.nextRequestId + 1 }

def request? (map : LabelMap α) (id : Nat) : Option (Request α) :=
  map.requests.find? (·.id == id)

def modifyIn (id : Nat) (change : Request α → Request α) : List (Request α) → List (Request α)
  | [] => []
  | request :: rest =>
    if request.id = id then change request :: rest else request :: modifyIn id change rest

def modifyRequest (map : LabelMap α) (id : Nat) (change : Request α → Request α) : LabelMap α :=
  { map with requests := modifyIn id change map.requests }

/-- The findings about all classes that have requests, for the kinds of features they label. -/
def findings [Scalar α] (map : LabelMap α) : List (String × Finding) :=
  map.classes.flatMap fun (name, sequence) =>
    let served := FeatureKind.all.filter fun kind =>
      map.requests.any fun request => request.labelClass == name && request.shape.kind == kind
    served.flatMap fun kind => (sequence.findings kind).map fun finding => (name, finding)

def cleared (map : LabelMap α) : LabelMap α :=
  let index := map.requests.foldl (fun index request => index.removeLabel request.id)
    map.workspace.index
  { map with
      requests := map.requests.map Request.reset
      workspace := { map.workspace with index, deferred := [] } }

/-- The positions of the requests in the order in which they are placed: by falling priority, and as
they were added where priorities are equal. -/
def order (requests : List (Request α)) : List Nat :=
  let turns := requests.zipIdx.map fun (request, position) => (request.priority, position)
  (turns.mergeSort fun left right => decide (right.1 ≤ left.1)).map (·.2)

def report (map : LabelMap α) (errors : Nat) (stop : Option Stop) : Summary :=
  let summary : Summary :=
    { total := map.requests.length, errors
      interrupted := stop = some .interrupted, timedOut := stop = some .timedOut }
  map.requests.foldl (fun summary request => summary.tally request.status) summary

section
variable [Trigonometric α]

/-- Places one request by the sequence of its class; without a class it is suppressed.  Tells
whether that failed. -/
def placeRequest (map : LabelMap α) (request : Request α) : Bool × Request α × Workspace α :=
  match map.class? request.labelClass with
  | none => (false, { request with status := .suppressed }, map.workspace)
  | some sequence =>
    match sequence.execute (.start map.workspace request) with
    | (.ok _, run) => (false, run.request, run.workspace)
    | (.error _, run) => (true, run.request, run.workspace)

def placeAt (map : LabelMap α) (position : Nat) : Bool × LabelMap α :=
  match map.requests[position]? with
  | none => (false, map)
  | some request =>
    let (failed, request, workspace) := map.placeRequest request
    (failed, { map with requests := map.requests.set position request, workspace })

/-- Places the requests at the given positions in turn, until the conditions stop it.  Gives the
map, the number of failures, and why it stopped early. -/
def placeAll (conditions : Conditions) (map : LabelMap α) :
    (turn : Nat) → List Nat → LabelMap α × Nat × Option Stop
  | _, [] => (map, 0, none)
  | turn, position :: rest =>
    match conditions.stop? map.options turn with
    | some stop => (map, 0, some stop)
    | none =>
      let (failed, placed) := map.placeAt position
      let (final, failures, stop) := placeAll conditions placed (turn + 1) rest
      (final, (if failed then 1 else 0) + failures, stop)

def placeDeferred (map : LabelMap α) (deferred : DeferredLeader α) : LabelMap α :=
  match map.request? deferred.request with
  | none => map
  | some request =>
    let run :=
      match (Run.start map.workspace request).placeWithLeader deferred.maxLength
        .placedWithLeader with
      | (true, run) => run
      | (false, run) => run.setStatus .suppressed
    { map.modifyRequest deferred.request (fun _ => run.request) with workspace := run.workspace }

def placeDeferredLeaders (map : LabelMap α) : LabelMap α :=
  map.workspace.deferred.foldl placeDeferred
    { map with workspace := { map.workspace with deferred := [] } }

def labelUnder (conditions : Conditions) (map : LabelMap α) : Summary × LabelMap α :=
  let cleared := map.cleared
  let (placed, errors, stop) := placeAll conditions cleared 0 (order cleared.requests)
  let final :=
    if map.options.placesDeferredLeaders && stop.isNone then placed.placeDeferredLeaders
    else placed
  (final.report errors stop, final)

/-- The conditions of a run that takes no time worth mentioning and that is interrupted if the map
says so. -/
def conditions (map : LabelMap α) : Conditions :=
  { interrupted := fun _ => map.interrupt, elapsed := fun _ => 0 }

def label (map : LabelMap α) : Summary × LabelMap α := map.labelUnder map.conditions

end

end LabelMap

end LabelPlacement
