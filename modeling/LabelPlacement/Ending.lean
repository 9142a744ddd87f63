import LabelPlacement.Map
/-!
How labelling ends.

What is carried out elsewhere always has an outcome.  Two things keep a program from one.  It
crashes where a number is to be brought into a range whose lower bound is not at or below the upper
one, as an undefined bound never is.  And a search does not end by itself: it goes on until a number
has got to the end of a range, which sums of infinite or of very large numbers may never do.

Here everything that can fail to come back has an `Ending`, which names the command that was carried
out then.  The numbers of rounds that bound the searches elsewhere play no part: a search takes as
many rounds as are enough for it.  Nothing else that is done for a command can go on for ever, and
what only trial builds check is left out.
-/

namespace LabelPlacement

/-- How a computation ends: with a result, or else with the last thing that it does, which crashes
or goes on for ever. -/
inductive Ending (ρ ι : Type)
  | result (value : ι)
  | crash (last : ρ)
  | endless (last : ρ)

namespace Ending

variable {ρ ι κ : Type}

def andThen (ending : Ending ρ ι) (next : ι → Ending ρ κ) : Ending ρ κ :=
  match ending with
  | result value => next value
  | crash last => crash last
  | endless last => endless last

def map (change : ι → κ) (ending : Ending ρ ι) : Ending ρ κ :=
  ending.andThen fun value => result (change value)

/-- Names what does not come back, if anything does not. -/
def during (last : ρ) (ending : Ending Unit ι) : Ending ρ ι :=
  match ending with
  | result value => result value
  | crash _ => crash last
  | endless _ => endless last

open Classical in
/-- The ending of a search that takes as many rounds as it needs: any number of rounds that is
enough gives its value, and if none is, then it does not end. -/
noncomputable def ofRounds (enough : Nat → Prop) (value : Nat → ι) : Ending Unit ι :=
  if found : ∃ rounds, enough rounds then result (value found.choose) else endless ()

end Ending

variable {α : Type}

section
variable [Scalar α]

/-- A number of rounds is enough for a search along a line if in one of them each side that is open
gets to the end of the range. -/
def SearchRange.EndsWithin (range : SearchRange α) (rounds : Nat) : Prop :=
  (range.initial < range.finish - tolerance → ∃ count, 1 ≤ count ∧ count ≤ rounds ∧
    range.finish - tolerance ≤ range.initial + Scalar.ofNat count * range.step) ∧
  (range.start + tolerance < range.initial → ∃ count, 1 ≤ count ∧ count ≤ rounds ∧
    range.initial - Scalar.ofNat count * range.step ≤ range.start + tolerance)

noncomputable def SearchRange.ending (range : SearchRange α) : Ending Unit (List α) :=
  if range.start ≤ range.finish then
    .ofRounds range.EndsWithin
      (positionsWithin range.initial range.start range.finish range.step)
  else .crash ()

def Box.IsOrdered (box : Box α) : Prop :=
  box.lower.x ≤ box.upper.x ∧ box.lower.y ≤ box.upper.y

instance (box : Box α) : Decidable box.IsOrdered :=
  inferInstanceAs (Decidable (_ ∧ _))

end

section
variable [Trigonometric α]

/-! Single commands. -/

noncomputable def LinePlacement.ending (placement : LinePlacement α) (run : Run α) :
    Ending Unit (Bool × Run α) :=
  match run.request.shape with
  | .line points =>
    if Polyline.length points ≤ tolerance then .result (false, run)
    else
      (placement.searchRange run.workspace.options.lineSearchStep (Polyline.length points)
        run.extent.1).ending.map fun positions =>
          run.placeFirst (fun _ => true) (placement.candidatesAt run points positions)
  | _ => .result (false, run)

/-- A leader line ends at the point of a box nearest to its anchor. -/
def LeaderPlace.ending (place : LeaderPlace α) : Ending Unit (LeaderPlace α) :=
  if place.candidate.bounds.IsOrdered then .result place else .crash ()

/-- A number of rings is enough for a search from a radius on if one of them has a place or is too
large. -/
def Run.EndsOnRings (run : Run α) (anchor : Point α) (width height step maxRadius : α) :
    (radius : α) → (rings : Nat) → Prop
  | _, 0 => False
  | radius, rings + 1 =>
    radius ≤ maxRadius → run.onRing? anchor width height radius = none →
      run.EndsOnRings anchor width height step maxRadius (radius + step) rings

noncomputable def Run.leaderEnding (run : Run α) (maxLength : Option α) :
    Ending Unit (Option (LeaderPlace α)) :=
  match run.request.shape.anchor? with
  | none => .result none
  | some anchor =>
    let (width, height) := run.extent
    let options := run.workspace.options
    let maxLength := maxLength.getD options.leaderMaxLength
    let step := options.leaderStep
    if step ≤ 0 ∨ maxLength ≤ 0 then .result none
    else
      let maxRadius := maxLength + tolerance
      let search : Ending Unit (Option (LeaderPlace α)) :=
        .ofRounds (run.EndsOnRings anchor width height step maxRadius step)
          fun rings => run.onRings? anchor width height step maxRadius rings step
      search.andThen fun found =>
        match found with
        | none => .result none
        | some place => place.ending.map some

noncomputable def Run.placeWithLeaderEnding (run : Run α) (maxLength : Option α)
    (status : Status) : Ending Unit (Bool × Run α) :=
  (run.leaderEnding maxLength).map fun found =>
    match found with
    | some place => (true, run.place place.candidate status (some place.leader))
    | none => (false, run)

noncomputable def LeaderPlacement.ending (placement : LeaderPlacement α) (run : Run α) :
    Ending Unit (Bool × Run α) :=
  match placement.timing with
  | .immediate => run.placeWithLeaderEnding placement.maxLength .placedWithLeader
  | .deferred => .result (placement.perform run)

def Run.forcedPlaceEnding (run : Run α) : Ending Unit (Option (LeaderPlace α)) :=
  match run.forcedCandidate?, run.request.shape.anchor? with
  | some candidate, some anchor =>
    (LeaderPlace.ending { candidate, leader := .toBox anchor candidate.bounds }).map some
  | _, _ => .result none

noncomputable def FailureAction.ending (action : FailureAction) (run : Run α) :
    Ending Unit (Run α) :=
  match action with
  | .suppress | .force => .result (action.perform run)
  | .forceWithLeader =>
    let search := (run.leaderEnding none).andThen fun found =>
      match found with
      | some place => .result (some place)
      | none => run.forcedPlaceEnding
    search.map fun found =>
      match found with
      | some place => run.place place.candidate .forcedWithLeader (some place.leader)
      | none => run.setStatus .suppressed

noncomputable def Command.ending (command : Command α) (run : Run α) :
    Ending Unit (Outcome α) :=
  match command with
  | .line placement => (placement.ending run).map fun (found, run) => (.ok found, run)
  | .leader placement => (placement.ending run).map fun (found, run) => (.ok found, run)
  | .failure action => (action.ending run).map fun run => (.ok true, run)
  | .point _ | .area _ | .loop _ => .result (Sequence.performSingle command run)

/-- A command, and the run that it is carried out on. -/
structure Performing (α : Type) where
  command : Command α
  run : Run α

/-- A leader line that was put off is led as it is at once. -/
def Performing.leading (run : Run α) (maxLength : Option α) : Performing α :=
  ⟨.leader ⟨.immediate, maxLength⟩, run⟩

noncomputable def Command.performing (command : Command α) (run : Run α) :
    Ending (Performing α) (Outcome α) :=
  (command.ending run).during ⟨command, run⟩

end

variable {ρ : Type}

/-! Sequences, in which single commands are carried out as `perform` says. -/

theorem lt_add_succ (start count : Nat) : start < start + (count + 1) := by
  omega

theorem lt_add_succ_of_lt {start count position : Nat} (hbelow : position < start + 1 + count) :
    position < start + (count + 1) := by
  omega

/-- `inOrder` for steps that may fail to come back. -/
def inOrderEnding (start : Nat) (count : Nat)
    (step : (position : Nat) → start ≤ position → position < start + count → Run α →
      Ending ρ (Outcome α))
    (run : Run α) : Ending ρ (Outcome α) :=
  match count with
  | 0 => .result (.ok false, run)
  | count + 1 =>
    (step start (Nat.le_refl _) (lt_add_succ start count) run).andThen fun outcome =>
      match outcome with
      | (.ok false, run) =>
        inOrderEnding (start + 1) count
          (fun position above below =>
            step position (Nat.le_of_succ_le above) (lt_add_succ_of_lt below)) run
      | settled => .result settled

/-- `LoopKind.rounds` for a body that may fail to come back. -/
def LoopKind.roundsEnding [Scalar α] (kind : LoopKind α) (body : Run α → Ending ρ (Outcome α))
    (state : kind.State) (run : Run α) : Ending ρ (Outcome α) :=
  if _again : (kind.reenter state run).again then
    (body (kind.reenter state run).run).andThen fun outcome =>
      match outcome with
      | (.ok false, run') => kind.roundsEnding body (kind.reenter state run).state run'
      | (result, run') => .result (result, kind.finish (kind.reenter state run).state run')
  else .result (.ok false, kind.finish (kind.reenter state run).state (kind.reenter state run).run)
termination_by kind.remaining state
decreasing_by exact kind.remaining_reenter_lt state run _again

namespace Sequence

section
variable [Scalar α]

/-- `executeAt` for single commands that may fail to come back. -/
def endingAt (sequence : Sequence α) (perform : Command α → Run α → Ending ρ (Outcome α))
    (position returnLimit : Nat) (run : Run α) : Ending ρ (Outcome α) :=
  match sequence.entryAt? position with
  | none => .result (.ok false, run)
  | some entry =>
    let run := run.visit position entry.id
    match entry.command with
    | .loop loop =>
      if loop.kind.needsTarget then
        match sequence.targetPosition? position loop with
        | none => .result (.error (.unresolvedTarget entry.id), run)
        | some declared =>
          let start := effectiveStart declared returnLimit
          let body := inOrderEnding start (position - start) fun inner _ _ =>
            sequence.endingAt perform inner start
          loop.kind.roundsEnding body (loop.kind.begin run) run
      else .result (.ok false, loop.kind.restoreDeclared run)
    | command => perform command run
termination_by position

end

noncomputable def ending [Trigonometric α] (sequence : Sequence α) (run : Run α) :
    Ending (Performing α) (Outcome α) :=
  inOrderEnding 0 sequence.length
    (fun position _ _ => sequence.endingAt Command.performing position 0) run

end Sequence

/-! Maps. -/

namespace LabelMap

variable [Trigonometric α]

noncomputable def placeRequestEnding (map : LabelMap α) (request : Request α) :
    Ending (Performing α) (Bool × Request α × Workspace α) :=
  match map.class? request.labelClass with
  | none => .result (false, { request with status := .suppressed }, map.workspace)
  | some sequence =>
    (sequence.ending (.start map.workspace request)).map fun outcome =>
      match outcome with
      | (.ok _, run) => (false, run.request, run.workspace)
      | (.error _, run) => (true, run.request, run.workspace)

noncomputable def placeAtEnding (map : LabelMap α) (position : Nat) :
    Ending (Performing α) (Bool × LabelMap α) :=
  match map.requests[position]? with
  | none => .result (false, map)
  | some request =>
    (map.placeRequestEnding request).map fun (failed, request, workspace) =>
      (failed, { map with requests := map.requests.set position request, workspace })

noncomputable def placeAllEnding (conditions : Conditions) (map : LabelMap α) :
    (turn : Nat) → List Nat → Ending (Performing α) (LabelMap α × Nat × Option Stop)
  | _, [] => .result (map, 0, none)
  | turn, position :: rest =>
    match conditions.stop? map.options turn with
    | some stop => .result (map, 0, some stop)
    | none =>
      (map.placeAtEnding position).andThen fun (failed, placed) =>
        (placeAllEnding conditions placed (turn + 1) rest).map fun (final, failures, stop) =>
          (final, (if failed then 1 else 0) + failures, stop)

noncomputable def placeDeferredEnding (map : LabelMap α) (deferred : DeferredLeader α) :
    Ending (Performing α) (LabelMap α) :=
  match map.request? deferred.request with
  | none => .result map
  | some request =>
    let run := Run.start map.workspace request
    let search := (run.placeWithLeaderEnding deferred.maxLength .placedWithLeader).during
      (.leading run deferred.maxLength)
    search.map fun (found, run) =>
      let run := if found then run else run.setStatus .suppressed
      { map.modifyRequest deferred.request (fun _ => run.request) with workspace := run.workspace }

noncomputable def placeEachDeferred (map : LabelMap α) :
    List (DeferredLeader α) → Ending (Performing α) (LabelMap α)
  | [] => .result map
  | deferred :: rest =>
    (map.placeDeferredEnding deferred).andThen fun placed => placed.placeEachDeferred rest

noncomputable def labelEnding (conditions : Conditions) (map : LabelMap α) :
    Ending (Performing α) (Summary × LabelMap α) :=
  let cleared := map.cleared
  (placeAllEnding conditions cleared 0 (order cleared.requests)).andThen
    fun (placed, errors, stop) =>
      let final : Ending (Performing α) (LabelMap α) :=
        if map.options.placesDeferredLeaders && stop.isNone then
          placeEachDeferred { placed with workspace := { placed.workspace with deferred := [] } }
            placed.workspace.deferred
        else .result placed
      final.map fun final => (final.report errors stop, final)

end LabelMap

end LabelPlacement
