import LabelPlacement.Proofs.Settlement

/-!
# The turn of a request

Labelling a map lets one request after the other have its turn. `Turned` lists what a turn can do to
the request and to what all requests share, whatever the sequence of its class is and however its
run ends (`Sequence.turned_execute`). Whether lines and edges may have been crossed is known from
the loops of the sequence alone.
-/

namespace LabelPlacement

variable {α : Type}

/-! ### One turn -/

/-- A placement that was found with nothing in its way, on a map with given boxes. The run that
found it ignores lines and edges only if it may cross them. -/
def FoundFree [Scalar α] (mayCross : Bool) (index : SpatialIndex α) (request : Request α)
    (placement : Placement α) : Prop :=
  ∃ run : Run α, run.workspace.index = index ∧ run.request.id = request.id ∧
    run.request.feature = request.feature ∧ run.request.working.buffers = placement.buffers ∧
    (mayCross = false → run.relaxations.overline = false) ∧ run.conflicts placement.bounds = []

/-- What a turn can make of the workspace and of the request, which stays the same but for what
placing may change. -/
inductive Turned [Scalar α] (mayCross : Bool) (workspace : Workspace α) (request : Request α) :
    Workspace α → Request α → Prop
  | unsettled {after : Request α} (hreset : after.reset = request.reset)
      (hstatus : after.status = request.status) (hplacement : after.placement = request.placement) :
      Turned mayCross workspace request workspace after
  | placed {after : Request α} (hreset : after.reset = request.reset) (placement : Placement α)
      (hplacement : after.placement = some placement) (hplaced : after.status.isPlaced = true)
      (hleader : placement.leader.isSome = after.status.hasLeader)
      (hfree : after.status.isFree = true → FoundFree mayCross workspace.index request placement) :
      Turned mayCross workspace request
        { workspace with
            index := (workspace.index.removeLabel request.id).insert
              ⟨.label request.id, placement.bounds⟩ } after
  | deferred {after : Request α} (hreset : after.reset = request.reset)
      (hstatus : after.status = .leaderDeferred) (hplacement : after.placement = request.placement)
      (maxLength : Option α) :
      Turned mayCross workspace request (workspace.deferLeader request.id maxLength) after
  | suppressed {after : Request α} (hreset : after.reset = request.reset)
      (hstatus : after.status = .suppressed) (hplacement : after.placement = request.placement) :
      Turned mayCross workspace request workspace after

theorem Turned.reset_eq [Scalar α] {mayCross : Bool} {workspace newWorkspace : Workspace α}
    {request after : Request α}
    (hturned : Turned mayCross workspace request newWorkspace after) :
    after.reset = request.reset := by
  cases hturned <;> assumption

theorem Turned.id_eq [Scalar α] {mayCross : Bool} {workspace newWorkspace : Workspace α}
    {request after : Request α}
    (hturned : Turned mayCross workspace request newWorkspace after) :
    after.id = request.id := by
  have hreset := congrArg Request.id hturned.reset_eq
  rwa [Request.reset_eq, Request.reset_eq] at hreset

theorem Settled.turned [Scalar α] {start before after final : Run α} {mayCross : Bool}
    (hsettled : Settled before after) (hunsettled : start.Unsettled before)
    (hagrees : after.Agrees final)
    (hlines : mayCross = false → before.relaxations.overline = false) :
    Turned mayCross start.workspace start.request final.workspace final.request := by
  have hdeclared := hunsettled.declared
  have hid : before.request.id = start.request.id := (congrArg Request.id hdeclared :)
  have hfeature : before.request.feature = start.request.feature :=
    (congrArg Request.feature hdeclared :)
  have hplacement : before.request.placement = start.request.placement :=
    (congrArg Request.placement hdeclared :)
  have hfinalStatus : final.request.status = after.request.status :=
    (congrArg Request.status hagrees.declared :)
  have hfinalPlacement : final.request.placement = after.request.placement :=
    (congrArg Request.placement hagrees.declared :)
  have hreset : final.request.reset = start.request.reset := by
    calc final.request.reset = after.request.reset :=
          Request.reset_of_declared_eq hagrees.declared
      _ = before.request.reset := by cases hsettled <;> exact before.request.reset_settle _ _
      _ = start.request.reset := Request.reset_of_declared_eq hdeclared
  rw [hagrees.workspace]
  cases hsettled with
  | placed candidate status leader ideal hplaced hleader hfree =>
    simp only [Run.place, hunsettled.workspace, hid]
    refine .placed hreset _ hfinalPlacement (hfinalStatus ▸ hplaced) (hfinalStatus ▸ hleader) ?_
    intro hfinalFree
    rw [hfinalStatus] at hfinalFree
    exact ⟨before, by rw [hunsettled.workspace], hid, hfeature, rfl, hlines, hfree hfinalFree⟩
  | deferred maxLength =>
    simp only [Run.setStatus, Run.mapRequest, hunsettled.workspace, hid]
    exact .deferred hreset hfinalStatus (hfinalPlacement.trans hplacement) maxLength
  | suppressed =>
    simp only [Run.setStatus, Run.mapRequest, hunsettled.workspace]
    exact .suppressed hreset hfinalStatus (hfinalPlacement.trans hplacement)

theorem Run.Unsettled.turned [Scalar α] {start final : Run α} (hunsettled : start.Unsettled final)
    (mayCross : Bool) :
    Turned mayCross start.workspace start.request final.workspace final.request := by
  rw [hunsettled.workspace]
  exact .unsettled (Request.reset_of_declared_eq hunsettled.declared)
    (congrArg Request.status hunsettled.declared :)
    (congrArg Request.placement hunsettled.declared :)

/-! ### Runs that cross lines -/

/-- Whether a loop of the sequence lets labels cross lines and edges. -/
def Sequence.liftsOverline (sequence : Sequence α) : Bool :=
  sequence.entries.any fun entry =>
    match entry.command with
    | .loop ⟨.relax .overline, _⟩ => true
    | _ => false

theorem Sequence.liftsOverline_of_entryAt? {sequence : Sequence α} {position : Nat}
    {entry : Entry α} {target : Option Nat} (hentry : sequence.entryAt? position = some entry)
    (hloop : entry.command = .loop ⟨.relax .overline, target⟩) : sequence.liftsOverline = true := by
  refine List.any_eq_true.mpr ⟨entry, List.mem_of_getElem? hentry, ?_⟩
  rw [hloop]

theorem LoopKind.relaxations_reenter [Scalar α] (kind : LoopKind α)
    (hkind : ∀ relaxation, kind ≠ .relax relaxation) (state : kind.State) (run : Run α) :
    (kind.reenter state run).run.relaxations = run.relaxations := by
  match kind, state with
  | .relax relaxation, _ => exact absurd rfl (hkind relaxation)
  | .bufferSize .., state | .fontSize .., state =>
    simp only [reenter]
    split <;> split <;> rfl
  | .stack .., state =>
    simp only [reenter]
    split
    · split <;> rfl
    · split
      · rfl
      · split <;> rfl
  | .hide _, state => rfl

/-- Nothing has been settled since the start, and lines are crossed only where a loop may have let
them be. -/
structure Run.Pending (mayCross : Bool) (start run : Run α) : Prop where
  unsettled : start.Unsettled run
  lines : mayCross = false → run.relaxations.overline = false

namespace Sequence

variable [Trigonometric α]

theorem maintains_pending (sequence : Sequence α) (start : Run α) :
    sequence.Maintains (start.Pending sequence.liftsOverline) fun
      | .relax _, state => sequence.liftsOverline = false → state.previous.overline = false
      | _, _ => True where
  visit _ _ hpending :=
    ⟨⟨hpending.unsettled.workspace, hpending.unsettled.declared⟩, hpending.lines⟩
  note _ hpending :=
    ⟨⟨hpending.unsettled.workspace, hpending.unsettled.declared⟩, hpending.lines⟩
  begins kind _ hpending := by
    cases kind with
    | relax => exact hpending.lines
    | _ => trivial
  reenter := by
    intro position entry loop hentry hloop state run hheld hpending
    have hunsettled := (LoopKind.agrees_reenter loop.kind state run).unsettled hpending.unsettled
    obtain ⟨kind, target⟩ := loop
    match kind, state, hheld, hunsettled with
    | .relax relaxation, state, hheld, hunsettled =>
      by_cases happlied : state.applied
      · simp only [LoopKind.reenter, happlied, if_true]
        exact ⟨hheld, hpending⟩
      · simp only [LoopKind.reenter, happlied] at hunsettled ⊢
        refine ⟨hheld, hunsettled, fun hnone => ?_⟩
        cases relaxation with
        | overline => rw [liftsOverline_of_entryAt? hentry hloop] at hnone; cases hnone
        | offset | overhang | overregion | bump => exact hpending.lines hnone
    | .bufferSize .., state, _, hunsettled | .fontSize .., state, _, hunsettled
    | .stack .., state, _, hunsettled | .hide _, state, _, hunsettled =>
      refine ⟨trivial, hunsettled, ?_⟩
      rw [LoopKind.relaxations_reenter _ (by simp)]
      exact hpending.lines
  finish kind state run hheld hpending := by
    refine ⟨(kind.agrees_finish state run).unsettled hpending.unsettled, ?_⟩
    cases kind with
    | relax => exact hheld
    | _ => exact hpending.lines
  restore kind _ hpending := by
    refine ⟨(kind.agrees_restoreDeclared _).unsettled hpending.unsettled, ?_⟩
    cases kind <;> exact hpending.lines

/-- **The turn of a request.** Whatever the sequence is and however its run ends. -/
theorem turned_execute (sequence : Sequence α) (workspace : Workspace α) (request : Request α) :
    Turned sequence.liftsOverline workspace request
      (sequence.execute (.start workspace request)).2.workspace
      (sequence.execute (.start workspace request)).2.request := by
  have hreaches := (sequence.maintains_pending (.start workspace request)).reaches_execute
    ⟨⟨rfl, rfl⟩, fun _ => rfl⟩
  generalize sequence.execute (.start workspace request) = outcome at hreaches
  cases hreaches with
  | unsettled _ hpending => exact hpending.unsettled.turned _
  | settled hpending hsettles hagrees =>
    exact hsettles.settled.turned hpending.unsettled hagrees hpending.lines

end Sequence

end LabelPlacement
