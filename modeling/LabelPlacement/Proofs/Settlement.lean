import Mathlib.Logic.ExistsUnique
import LabelPlacement.Proofs.Execution
import LabelPlacement.Proofs.Hiding

/-!
# Settling a label

A command other than a loop either changes nothing but the first candidate noted, or settles the
label in one of three ways: it places it once, puts its leader off, or suppresses it
(`Sequence.attempted_performSingle`). Loops change the request's style of the moment and the relaxed
constraints, and nothing of what settling changes (`Run.Agrees`). So a run that settles its label
does so in one step, the last one it visits, and every other run leaves everything in place
(`Sequence.Maintains.reaches_execute`).
-/

namespace LabelPlacement

variable {α : Type}

/-! ### The status of a placed label -/

namespace Status

/-- Whether a request of the status stands on the map. -/
def isPlaced : Status → Bool
  | .placed | .placedWithLeader | .forced | .forcedWithLeader => true
  | .unplaced | .leaderDeferred | .suppressed => false

/-- Whether a request of the status stands on the map with a leader line. -/
def hasLeader : Status → Bool
  | .placedWithLeader | .forcedWithLeader => true
  | _ => false

/-- Whether a request of the status stands where nothing was in its way. -/
def isFree : Status → Bool
  | .placed | .placedWithLeader => true
  | _ => false

theorem isPlaced_of_isFree {status : Status} (hfree : status.isFree = true) :
    status.isPlaced = true := by
  cases status <;> first | rfl | simp [isFree] at hfree

end Status

/-! ### Candidates with nothing in their way -/

section
variable [Trigonometric α]

/-- Whatever a candidate is resolved to has nothing in its way, bumped aside or not. -/
theorem Run.conflicts_of_resolve? {run : Run α} {candidate resolved : Candidate α}
    (hresolved : run.resolve? candidate = some resolved) : run.conflicts resolved.bounds = [] := by
  rw [resolve?] at hresolved
  split at hresolved
  · rename_i hfree
    rw [← Option.some.inj hresolved, hfree]
  · split at hresolved
    · split at hresolved
      · cases hresolved
      · simp only [Option.ite_none_right_eq_some, List.isEmpty_iff, Option.some.injEq] at hresolved
        rw [← hresolved.2, hresolved.1]
    · cases hresolved
  · cases hresolved

theorem Run.conflicts_of_settle? {run : Run α} {suits : Candidate α → Bool}
    {candidate resolved : Candidate α} (hsettled : run.settle? suits candidate = some resolved) :
    run.conflicts resolved.bounds = [] := by
  rw [settle?] at hsettled
  split at hsettled
  · exact conflicts_of_resolve? (Option.filter_eq_some_iff.mp hsettled).1
  · cases hsettled

theorem Run.conflicts_of_onRing? {run : Run α} {anchor : Point α} {width height radius : α}
    {place : LeaderPlace α} (hplace : run.onRing? anchor width height radius = some place) :
    run.conflicts place.candidate.bounds = [] := by
  obtain ⟨position, _, hposition⟩ := List.exists_of_findSome?_eq_some hplace
  split at hposition
  · cases hposition
  · obtain ⟨resolved, hresolved, rfl⟩ := Option.map_eq_some_iff.mp hposition
    exact conflicts_of_resolve? hresolved

theorem Run.conflicts_of_onRings? {run : Run α} {anchor : Point α}
    {width height step maxRadius : α} {rings : Nat} {radius : α} {place : LeaderPlace α}
    (hplace : run.onRings? anchor width height step maxRadius rings radius = some place) :
    run.conflicts place.candidate.bounds = [] := by
  induction rings generalizing radius with
  | zero => cases hplace
  | succ rings ih =>
    rw [onRings?] at hplace
    split at hplace
    · split at hplace
      · rename_i hring
        exact conflicts_of_onRing? (hring.trans hplace)
      · exact ih hplace
    · cases hplace

theorem Run.conflicts_of_findLeader? {run : Run α} {maxLength : Option α} {place : LeaderPlace α}
    (hplace : run.findLeader? maxLength = some place) :
    run.conflicts place.candidate.bounds = [] := by
  rw [findLeader?] at hplace
  split at hplace
  · cases hplace
  · simp only [Option.ite_none_left_eq_some] at hplace
    exact conflicts_of_onRings? hplace.2

end

/-! ### What a single command does -/

/-- The three ways in which a run can settle its label. A place on the map comes with a leader line
exactly if the status says so, and nothing is in its way unless it was forced. -/
inductive Settled [Scalar α] (before : Run α) : Run α → Prop
  | placed (candidate : Candidate α) (status : Status) (leader : Option (LeaderLine α))
      (ideal : Option (Candidate α)) (hplaced : status.isPlaced = true)
      (hleader : leader.isSome = status.hasLeader)
      (hfree : status.isFree = true → before.conflicts candidate.bounds = []) :
      Settled before ({ before with ideal }.place candidate status leader)
  | deferred (maxLength : Option α) :
      Settled before
        ({ before with
            workspace := before.workspace.deferLeader before.request.id maxLength }.setStatus
          .leaderDeferred)
  | suppressed : Settled before (before.setStatus .suppressed)

section
variable [Trigonometric α]

/-- The outcomes of a command that is no loop: it settles the label, or it says otherwise and at
most notes a candidate. -/
inductive Run.Attempted (run : Run α) : Outcome α → Prop
  | settled {after : Run α} (hsettled : Settled run after) : Attempted run (.ok true, after)
  | unsettled {result : Except (LabelingError α) Bool} (ideal : Option (Candidate α))
      (hresult : result ≠ .ok true) : Attempted run (result, { run with ideal })

theorem Run.attempted_nothing (run : Run α) : run.Attempted (.ok false, run) :=
  .unsettled run.ideal (by simp)

/-- A search for a place takes the final place of a candidate, or none, and notes at most one. -/
theorem Run.placeFirst_cases (run : Run α) (suits : Candidate α → Bool)
    (candidates : List (Candidate α)) :
    ∃ ideal, (∃ candidate ∈ candidates, ∃ resolved,
        run.settle? suits candidate = some resolved ∧
        run.placeFirst suits candidates =
          (true, { run with ideal }.place resolved .placed none)) ∨
      run.placeFirst suits candidates = (false, { run with ideal }) := by
  have hnoted : ∃ ideal, candidates.head?.elim run run.noteIdeal = { run with ideal } := by
    cases candidates with
    | nil => exact ⟨run.ideal, rfl⟩
    | cons first rest => exact ⟨_, rfl⟩
  obtain ⟨ideal, hnoted⟩ := hnoted
  refine ⟨ideal, ?_⟩
  rw [placeFirst, hnoted]
  split
  · rename_i resolved hfound
    obtain ⟨candidate, hmem, hsettled⟩ := List.exists_of_findSome?_eq_some hfound
    exact Or.inl ⟨candidate, hmem, resolved, hsettled, rfl⟩
  · exact Or.inr rfl

theorem Run.attempted_placeFirst (run : Run α) (suits : Candidate α → Bool)
    (candidates : List (Candidate α)) :
    run.Attempted ((run.placeFirst suits candidates).map .ok id) := by
  obtain ⟨ideal, ⟨candidate, -, resolved, hsettled, hplaced⟩ | hunplaced⟩ :=
    run.placeFirst_cases suits candidates
  · rw [hplaced]
    exact .settled (.placed resolved .placed none ideal rfl rfl
      fun _ => conflicts_of_settle? hsettled)
  · rw [hunplaced]
    exact .unsettled ideal (by simp)

theorem Run.attempted_placeWithLeader (run : Run α) (maxLength : Option α) :
    run.Attempted ((run.placeWithLeader maxLength .placedWithLeader).map .ok id) := by
  rw [placeWithLeader]
  split
  · rename_i place hplace
    exact .settled (.placed place.candidate .placedWithLeader (some place.leader) run.ideal rfl rfl
      fun _ => conflicts_of_findLeader? hplace)
  · exact run.attempted_nothing

theorem FailureAction.settled_perform (action : FailureAction) (run : Run α) :
    Settled run (action.perform run) := by
  cases action with
  | suppress => exact .suppressed
  | force =>
    rw [perform]
    split
    · rename_i candidate _
      exact .placed candidate .forced none run.ideal rfl rfl (by simp [Status.isFree])
    · exact .suppressed
  | forceWithLeader =>
    rw [perform]
    split
    · rename_i place _
      exact .placed place.candidate .forcedWithLeader (some place.leader) run.ideal rfl rfl
        (by simp [Status.isFree])
    · exact .suppressed

/-- **One command.** A command other than a loop settles the label if it says so; otherwise, also
where it fails, it does no more than to note a candidate. -/
theorem Sequence.attempted_performSingle {command : Command α} (hcommand : command.loop? = none)
    (run : Run α) : run.Attempted (performSingle command run) := by
  cases command with
  | line placement =>
    rw [performSingle, LinePlacement.perform]
    split
    · split
      · exact run.attempted_nothing
      · exact run.attempted_placeFirst _ _
    · exact run.attempted_nothing
  | point placement =>
    rw [performSingle, PointPlacement.perform]
    split
    · split
      · exact .unsettled run.ideal (by simp)
      · exact run.attempted_placeFirst _ _
    · exact run.attempted_nothing
  | area placement =>
    rw [performSingle, AreaPlacement.perform]
    split
    · split
      · exact run.attempted_nothing
      · exact run.attempted_placeFirst _ _
    · exact run.attempted_nothing
  | leader placement =>
    rw [performSingle, LeaderPlacement.perform]
    split
    · exact run.attempted_placeWithLeader placement.maxLength
    · exact .settled (.deferred placement.maxLength)
  | failure action => exact .settled (action.settled_perform run)
  | loop loop => cases hcommand

theorem Sequence.request_performSingle {command : Command α} (hcommand : command.loop? = none)
    (run : Run α) : ∃ status placement,
      (performSingle command run).2.request = { run.request with status, placement } := by
  have hattempted := attempted_performSingle hcommand run
  generalize performSingle command run = outcome at hattempted
  cases hattempted with
  | settled hsettled => cases hsettled <;> exact ⟨_, _, rfl⟩
  | unsettled => exact ⟨_, _, rfl⟩

theorem Sequence.visits_performSingle {command : Command α} (hcommand : command.loop? = none)
    (run : Run α) : (performSingle command run).2.visits = run.visits := by
  have hattempted := attempted_performSingle hcommand run
  generalize performSingle command run = outcome at hattempted
  cases hattempted with
  | settled hsettled => cases hsettled <;> rfl
  | unsettled => rfl

end

/-! ### What loops leave alone -/

namespace Request

@[simp]
theorem declared_setBuffer (request : Request α) (kind : BufferKind) (value : α) :
    (request.setBuffer kind value).declared = request.declared := rfl

@[simp]
theorem declared_setFontSize (request : Request α) (fontSize : α) :
    (request.setFontSize fontSize).declared = request.declared := rfl

@[simp]
theorem declared_withStackLines (request : Request α) (stackLines : Nat) :
    (request.withStackLines stackLines).declared = request.declared := rfl

theorem eq_withStackLines_of_stack? {request stacked : Request α} {lines : Nat}
    (hstacked : request.stack? lines = some stacked) :
    stacked = request.withStackLines lines := by
  simp only [stack?, Option.ite_none_left_eq_some, Option.some.injEq] at hstacked
  exact hstacked.2.symm

end Request

/-- Two runs that differ at most in the request's style of the moment, in what is hidden, in the
relaxed constraints and in the candidate noted. -/
structure Run.Agrees (before after : Run α) : Prop where
  workspace : after.workspace = before.workspace
  visits : after.visits = before.visits
  declared : after.request.declared = before.request.declared

theorem Run.Agrees.refl (run : Run α) : run.Agrees run := ⟨rfl, rfl, rfl⟩

theorem Run.Agrees.trans {first second third : Run α} (hleft : first.Agrees second)
    (hright : second.Agrees third) : first.Agrees third :=
  ⟨hright.workspace.trans hleft.workspace, hright.visits.trans hleft.visits,
    hright.declared.trans hleft.declared⟩

namespace LoopKind

theorem agrees_finish (kind : LoopKind α) (state : kind.State) (run : Run α) :
    run.Agrees (kind.finish state run) := by
  match kind, state with
  | .relax _, _ | .bufferSize .., _ | .fontSize .., _ => exact ⟨rfl, rfl, rfl⟩
  | .hide _, state =>
    exact ⟨rfl, rfl, Request.declared_eq_of_shown_eq (Request.shown_foldl_restore _ _)⟩
  | .stack .., state =>
    refine ⟨rfl, rfl, ?_⟩
    simp only [finish, Run.mapRequest]
    split
    · exact Request.declared_withStackLines _ _
    · cases hstacked : run.request.stack? state.entry with
      | none => exact Request.declared_withStackLines _ _
      | some stacked => rw [Request.eq_withStackLines_of_stack? hstacked]; rfl

theorem agrees_restoreDeclared (kind : LoopKind α) (run : Run α) :
    run.Agrees (kind.restoreDeclared run) := by
  cases kind <;> exact ⟨rfl, rfl, rfl⟩

theorem agrees_reenter [Scalar α] (kind : LoopKind α) (state : kind.State) (run : Run α) :
    run.Agrees (kind.reenter state run).run := by
  match kind, state with
  | .relax _, state =>
    rw [reenter]
    split <;> exact ⟨rfl, rfl, rfl⟩
  | .bufferSize .., state | .fontSize .., state =>
    simp only [reenter]
    split <;> split <;> exact ⟨rfl, rfl, rfl⟩
  | .stack .., state =>
    rw [reenter]
    split
    · split <;> exact .refl run
    · split
      · exact .refl run
      · split
        · exact .refl run
        · rename_i stacked hstacked
          rw [Request.eq_withStackLines_of_stack? hstacked]
          exact ⟨rfl, rfl, rfl⟩
  | .hide _, state =>
    refine ⟨rfl, rfl, Request.declared_eq_of_shown_eq ?_⟩
    rw [reenter, HideAttempt.shown_firstUsable, Request.shown_foldl_restore]

end LoopKind

/-! ### The step that settles a label -/

namespace Sequence

variable [Trigonometric α] {sequence : Sequence α}

/-- A condition on runs that is kept up until the label is settled, with what it needs of the states
of the loops that are under way. -/
structure Maintains (sequence : Sequence α) (inv : Run α → Prop)
    (held : (kind : LoopKind α) → kind.State → Prop) : Prop where
  visit : ∀ {run} position command, inv run → inv (run.visit position command)
  note : ∀ {run} ideal, inv run → inv { run with ideal }
  begins : ∀ kind {run}, inv run → held kind (kind.begin run)
  reenter : ∀ {position entry loop}, sequence.entryAt? position = some entry →
    entry.command = .loop loop → ∀ {state run}, held loop.kind state → inv run →
    held loop.kind (loop.kind.reenter state run).state ∧ inv (loop.kind.reenter state run).run
  finish : ∀ kind {state run}, held kind state → inv run → inv (kind.finish state run)
  restore : ∀ (kind : LoopKind α) {run}, inv run → inv (kind.restoreDeclared run)

/-- From `before` to `after`, the command at a position of the sequence settles the label; it is the
command visited last. -/
structure SettlesBetween (sequence : Sequence α) (position : Nat) (entry : Entry α)
    (before after : Run α) : Prop where
  found : sequence.entryAt? position = some entry
  single : entry.command.loop? = none
  visited : before.visits.head? = some ⟨position, entry.id, before.request⟩
  performed : performSingle entry.command before = (.ok true, after)
  settled : Settled before after

/-- What an outcome says about a condition on runs: the condition holds if the label is not settled,
and if it is, then it held up to the step that settled it, which only the ends of loops follow. -/
inductive Reaches (sequence : Sequence α) (inv : Run α → Prop) : Outcome α → Prop
  | unsettled {result : Except (LabelingError α) Bool} {run : Run α} (hresult : result ≠ .ok true)
      (hinv : inv run) : Reaches sequence inv (result, run)
  | settled {position : Nat} {entry : Entry α} {before after final : Run α} (hinv : inv before)
      (hsettles : sequence.SettlesBetween position entry before after)
      (hagrees : after.Agrees final) : Reaches sequence inv (.ok true, final)

variable {inv : Run α → Prop} {held : (kind : LoopKind α) → kind.State → Prop}

theorem Reaches.inv_of_unsettled {result : Except (LabelingError α) Bool} {run : Run α}
    (hreaches : sequence.Reaches inv (result, run)) (hresult : result ≠ .ok true) : inv run := by
  cases hreaches with
  | unsettled _ hinv => exact hinv
  | settled => exact absurd rfl hresult

/-- However a round ends its loop, what the loop gives back does not touch what was reached. -/
theorem Reaches.finish {kind : LoopKind α} {state : kind.State}
    {result : Except (LabelingError α) Bool} {run : Run α}
    (hreaches : sequence.Reaches inv (result, run))
    (hfinish : ∀ run, inv run → inv (kind.finish state run)) :
    sequence.Reaches inv (result, kind.finish state run) := by
  cases hreaches with
  | unsettled hresult hinv => exact .unsettled hresult (hfinish _ hinv)
  | settled hinv hsettles hagrees =>
    exact .settled hinv hsettles (hagrees.trans (kind.agrees_finish state _))

theorem Maintains.reaches_performSingle (hmaintains : sequence.Maintains inv held)
    {position : Nat} {entry : Entry α} (hentry : sequence.entryAt? position = some entry)
    (hsingle : entry.command.loop? = none) {run : Run α} (hinv : inv run) :
    sequence.Reaches inv (performSingle entry.command (run.visit position entry.id)) := by
  have hvisited := hmaintains.visit position entry.id hinv
  have hattempted := attempted_performSingle hsingle (run.visit position entry.id)
  generalize houtcome : performSingle entry.command (run.visit position entry.id) = outcome
    at hattempted
  cases hattempted with
  | settled hsettled =>
    exact .settled hvisited ⟨hentry, hsingle, rfl, houtcome, hsettled⟩ (.refl _)
  | unsettled ideal hresult => exact .unsettled hresult (hmaintains.note ideal hvisited)

theorem Maintains.respects (hmaintains : sequence.Maintains inv held) :
    sequence.Respects fun run outcome => inv run → sequence.Reaches inv outcome where
  skip run hinv := .unsettled (by simp) hinv
  seq hfirst hsecond hinv := hsecond ((hfirst hinv).inv_of_unsettled (by simp))
  single hentry hsingle run hinv := hmaintains.reaches_performSingle hentry hsingle hinv
  unresolved _ _ _ _ run hinv :=
    .unsettled (by simp) (hmaintains.visit _ _ hinv)
  reset hentry hloop run hinv :=
    .unsettled (by simp) (hmaintains.restore _ (hmaintains.visit _ _ hinv))
  rounds := by
    intro position entry loop hentry hloop body hbody run hinv
    refine LoopKind.rounds_rule (fun state run => held loop.kind state ∧ inv run)
      (sequence.Reaches inv) ?_ ?_ ?_ _ _ ?_
    · rintro state run ⟨hstate, hinv⟩ _ after hafter
      obtain ⟨hstate, hinv⟩ := hmaintains.reenter hentry hloop hstate hinv
      have hreached := hbody _ hinv
      rw [hafter] at hreached
      exact ⟨hstate, hreached.inv_of_unsettled (by simp)⟩
    · rintro state run ⟨hstate, hinv⟩ _ outcome after hafter _
      obtain ⟨hstate, hinv⟩ := hmaintains.reenter hentry hloop hstate hinv
      have hreached := hbody _ hinv
      rw [hafter] at hreached
      exact hreached.finish fun _ hafter => hmaintains.finish _ hstate hafter
    · rintro state run ⟨hstate, hinv⟩ _
      obtain ⟨hstate, hinv⟩ := hmaintains.reenter hentry hloop hstate hinv
      exact .unsettled (by simp) (hmaintains.finish _ hstate hinv)
    · have hvisited := hmaintains.visit position entry.id hinv
      exact ⟨hmaintains.begins _ hvisited, hvisited⟩

/-- **Up to the settling step.** A maintained condition holds when a run ends without settling its
label, and otherwise up to the one step that does. -/
theorem Maintains.reaches_execute (hmaintains : sequence.Maintains inv held) {run : Run α}
    (hinv : inv run) : sequence.Reaches inv (sequence.execute run) :=
  hmaintains.respects.execute run hinv

end Sequence

/-! ### All or nothing -/

/-- What settling a label changes: the state and the placement of its request, the boxes on the map,
and the leaders that are put off. -/
structure Standing (α : Type) where
  status : Status
  placement : Option (Placement α)
  index : SpatialIndex α
  deferred : List (DeferredLeader α)

def Run.standing (run : Run α) : Standing α :=
  { status := run.request.status
    placement := run.request.placement
    index := run.workspace.index
    deferred := run.workspace.deferred }

theorem Run.Agrees.standing_eq {before after : Run α} (hagrees : before.Agrees after) :
    after.standing = before.standing := by
  have hstatus : after.request.status = before.request.status :=
    (congrArg Request.status hagrees.declared :)
  have hplacement : after.request.placement = before.request.placement :=
    (congrArg Request.placement hagrees.declared :)
  simp only [standing, hstatus, hplacement, hagrees.workspace]

/-- The ways in which a label is settled. -/
inductive Settlement
  | placing
  | deferral
  | suppression

/-- What a step does that settles a label in a way: it enters it on the map once, puts its leader
off, or sets its state and nothing else. -/
def Settlement.Holds [Scalar α] (before after : Run α) : Settlement → Prop
  | placing => ∃ candidate status leader ideal, status.isPlaced = true ∧
      leader.isSome = status.hasLeader ∧
      after = { before with ideal }.place candidate status leader
  | deferral => ∃ maxLength, after =
      { before with
          workspace := before.workspace.deferLeader before.request.id maxLength }.setStatus
        .leaderDeferred
  | suppression => after = before.setStatus .suppressed

/-- The state afterwards tells the way. -/
theorem Settlement.status_of_holds [Scalar α] {before after : Run α} {settlement : Settlement}
    (hholds : settlement.Holds before after) :
    match settlement with
    | placing => after.request.status.isPlaced = true
    | deferral => after.request.status = .leaderDeferred
    | suppression => after.request.status = .suppressed := by
  cases settlement with
  | placing =>
    obtain ⟨candidate, status, leader, ideal, hplaced, _, rfl⟩ := hholds
    exact hplaced
  | deferral =>
    obtain ⟨maxLength, rfl⟩ := hholds
    rfl
  | suppression =>
    subst hholds
    rfl

theorem Settled.existsUnique_settlement [Scalar α] {before after : Run α}
    (hsettled : Settled before after) :
    ∃! settlement : Settlement, settlement.Holds before after := by
  have hexists : ∃ settlement : Settlement, settlement.Holds before after := by
    cases hsettled with
    | placed candidate status leader ideal hplaced hleader _ =>
      exact ⟨.placing, candidate, status, leader, ideal, hplaced, hleader, rfl⟩
    | deferred maxLength => exact ⟨.deferral, maxLength, rfl⟩
    | suppressed => exact ⟨.suppression, rfl⟩
  obtain ⟨settlement, hholds⟩ := hexists
  refine ⟨settlement, hholds, fun other hother => ?_⟩
  have hstatus := Settlement.status_of_holds hholds
  have hotherStatus := Settlement.status_of_holds hother
  cases settlement <;> cases other <;> simp_all [Status.isPlaced]

/-- Two runs of which the later one has settled nothing. -/
structure Run.Unsettled (start run : Run α) : Prop where
  workspace : run.workspace = start.workspace
  declared : run.request.declared = start.request.declared

theorem Run.Unsettled.standing_eq {start run : Run α} (hunsettled : start.Unsettled run) :
    run.standing = start.standing := by
  have hagrees : start.Agrees { run with visits := start.visits } :=
    ⟨hunsettled.workspace, rfl, hunsettled.declared⟩
  exact hagrees.standing_eq

theorem Run.Agrees.unsettled {start before after : Run α} (hagrees : before.Agrees after)
    (hunsettled : start.Unsettled before) : start.Unsettled after :=
  ⟨hagrees.workspace.trans hunsettled.workspace, hagrees.declared.trans hunsettled.declared⟩

namespace Sequence

variable [Trigonometric α]

theorem maintains_unsettled (sequence : Sequence α) (start : Run α) :
    sequence.Maintains start.Unsettled fun _ _ => True where
  visit _ _ hunsettled := ⟨hunsettled.workspace, hunsettled.declared⟩
  note _ hunsettled := ⟨hunsettled.workspace, hunsettled.declared⟩
  begins _ _ _ := trivial
  reenter _ _ _ _ _ hunsettled := ⟨trivial, (LoopKind.agrees_reenter _ _ _).unsettled hunsettled⟩
  finish kind _ _ _ hunsettled := (kind.agrees_finish _ _).unsettled hunsettled
  restore kind _ hunsettled := (kind.agrees_restoreDeclared _).unsettled hunsettled

/-- **All or nothing.** A run that does not settle its label, whether it fails or not, leaves the
state and placement of the request, the boxes on the map and the leaders put off as they were. A run
that settles it does so by the command visited last, which is no loop: everything is as it was
before that command and stays as it is after it, and the command settles the label in exactly one of
three ways. -/
theorem execute_allOrNothing (sequence : Sequence α) (run : Run α) :
    match sequence.execute run with
    | (.ok true, final) => ∃ position entry before after,
        sequence.entryAt? position = some entry ∧ entry.command.loop? = none ∧
        final.visits.head? = some ⟨position, entry.id, before.request⟩ ∧
        final.history.getLast? = some entry.id ∧
        before.standing = run.standing ∧
        performSingle entry.command before = (.ok true, after) ∧
        after.standing = final.standing ∧
        ∃! settlement : Settlement, settlement.Holds before after
    | (_, final) => final.standing = run.standing := by
  have hreaches := (sequence.maintains_unsettled run).reaches_execute ⟨rfl, rfl⟩
  generalize sequence.execute run = outcome at hreaches
  cases hreaches with
  | unsettled hresult hunsettled =>
    split
    · rename_i hoccurs
      exact absurd (Prod.mk.inj hoccurs).1 hresult
    · rename_i hoccurs
      rw [← (Prod.mk.inj hoccurs).2, hunsettled.standing_eq]
  | @settled position entry before after final hunsettled hsettles hagrees =>
    have hvisits : final.visits = before.visits := by
      rw [hagrees.visits]
      cases hsettles.settled <;> rfl
    have hlast : final.visits.head? = some ⟨position, entry.id, before.request⟩ := by
      rw [hvisits, hsettles.visited]
    have hhistory : final.history.getLast? = some entry.id := by
      rw [Run.history, List.getLast?_reverse, List.head?_map, hlast]
      rfl
    exact ⟨position, entry, before, after, hsettles.found, hsettles.single, hlast, hhistory,
      hunsettled.standing_eq, hsettles.performed, hagrees.standing_eq.symm,
      hsettles.settled.existsUnique_settlement⟩

end Sequence

end LabelPlacement
