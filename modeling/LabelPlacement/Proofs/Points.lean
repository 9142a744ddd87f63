import LabelPlacement.Proofs.Halting

/-!
# Every point of a run

Carried out step by step, a run has a point after every number of steps: between two commands of a
sequence, between two rounds of a loop, and after the end. `Sequence.Maintains.at_every_point` takes
a condition that loops maintain to all of these points, with the states of the loops that are
pending. A placement that a run has recorded by then tells how the request was when a command was
visited (`Sequence.records_of_visits`).
-/

namespace LabelPlacement

variable {α : Type}

/-- The state of a pending loop is held; the loop is one of the sequence. -/
def Pending.Held (sequence : Sequence α) (held : (kind : LoopKind α) → kind.State → Prop) :
    Pending α → Prop
  | .commands .. => True
  | .rounds kind state _ _ => held kind state ∧ ∃ position entry loop,
      sequence.entryAt? position = some entry ∧ entry.command = .loop loop ∧ loop.kind = kind

/-- A condition holds at the point that a run has reached, and the loops pending are held. -/
structure Progress.Holds (sequence : Sequence α) (inv : Run α → Prop)
    (held : (kind : LoopKind α) → kind.State → Prop) (progress : Progress α) : Prop where
  inv : inv progress.outcome.2
  pending : ∀ pending ∈ progress.pending, pending.Held sequence held

/-- The placement tells how the request was shown. -/
structure Placement.Tells (placement : Placement α) (request : Request α) : Prop where
  fontSize : placement.fontSize = request.working.fontSize
  buffers : placement.buffers = request.working.buffers
  lines : placement.lines = request.lines
  hidden : placement.hidden = request.hiddenElements

theorem Run.exists_placement_place [Scalar α] (run : Run α) (candidate : Candidate α)
    (status : Status) (leader : Option (LeaderLine α)) :
    ∃ placement, (run.place candidate status leader).request.placement = some placement ∧
      placement.Tells run.request :=
  ⟨_, rfl, ⟨rfl, rfl, rfl, rfl⟩⟩

theorem Run.Agrees.placement_eq {before after : Run α} (hagrees : before.Agrees after) :
    after.request.placement = before.request.placement :=
  (congrArg Request.placement hagrees.declared :)

namespace Sequence

variable [Trigonometric α] {sequence : Sequence α}

/-- How far a run has come after a number of steps. -/
def progress (sequence : Sequence α) (run : Run α) (steps : Nat) : Progress α :=
  sequence.step^[steps] (sequence.outset run)

/-- The end is a point of the run. -/
theorem exists_progress_eq (sequence : Sequence α) (run : Run α) :
    ∃ steps, sequence.progress run steps = ⟨[], sequence.execute run⟩ :=
  sequence.leads_outset run

variable {inv : Run α → Prop} {held : (kind : LoopKind α) → kind.State → Prop}

theorem Maintains.performSingle (hmaintains : sequence.Maintains inv held)
    (hsettled : ∀ {run after : Run α} (position command : Nat),
      inv (run.visit position command) → Settled (run.visit position command) after → inv after)
    {command : Command α} (hsingle : command.loop? = none) (position number : Nat) {run : Run α}
    (hinv : inv run) : inv (performSingle command (run.visit position number)).2 := by
  have hvisited := hmaintains.visit position number hinv
  have hattempted := attempted_performSingle hsingle (run.visit position number)
  generalize Sequence.performSingle command (run.visit position number) = outcome at hattempted
  cases hattempted with
  | settled hafter => exact hsettled position number hvisited hafter
  | unsettled ideal _ => exact hmaintains.note ideal hvisited

theorem Maintains.enter (hmaintains : sequence.Maintains inv held)
    (hsettled : ∀ {run after : Run α} (position command : Nat),
      inv (run.visit position command) → Settled (run.visit position command) after → inv after)
    (position returnLimit : Nat) {pending : List (Pending α)} {run : Run α} (hinv : inv run)
    (hpending : ∀ waiting ∈ pending, waiting.Held sequence held) :
    (sequence.enter position returnLimit pending run).Holds sequence inv held := by
  rw [Sequence.enter]
  cases hentry : sequence.entryAt? position with
  | none => exact ⟨hinv, hpending⟩
  | some entry =>
    have hvisited := hmaintains.visit position entry.id hinv
    cases hcommand : entry.command with
    | loop loop =>
      simp only [hcommand]
      by_cases htarget : loop.kind.needsTarget = true
      · rw [if_pos htarget]
        cases sequence.targetPosition? position loop with
        | none => exact ⟨hvisited, hpending⟩
        | some declared =>
          refine ⟨hvisited, fun waiting hmem => ?_⟩
          obtain rfl | hwaiting := List.mem_cons.mp hmem
          · exact ⟨hmaintains.begins loop.kind hvisited, position, entry, loop, hentry, hcommand,
              rfl⟩
          · exact hpending waiting hwaiting
      · rw [if_neg htarget]
        exact ⟨hmaintains.restore loop.kind hvisited, hpending⟩
    | line | point | area | leader | failure =>
      simp only [hcommand]
      exact ⟨hmaintains.performSingle hsettled rfl position entry.id hinv, hpending⟩

theorem Maintains.step (hmaintains : sequence.Maintains inv held)
    (hsettled : ∀ {run after : Run α} (position command : Nat),
      inv (run.visit position command) → Settled (run.visit position command) after → inv after)
    {progress : Progress α} (hholds : progress.Holds sequence inv held) :
    (sequence.step progress).Holds sequence inv held := by
  obtain ⟨pending, result, run⟩ := progress
  obtain ⟨hinv, hpending⟩ := hholds
  cases pending with
  | nil => exact ⟨hinv, hpending⟩
  | cons first rest =>
    have hrest : ∀ waiting ∈ rest, waiting.Held sequence held :=
      fun waiting hmem => hpending waiting (List.mem_cons_of_mem _ hmem)
    have hfirst := hpending first List.mem_cons_self
    by_cases hgoes : result = .ok false
    · subst hgoes
      cases first with
      | commands next finish returnLimit =>
        by_cases hnext : next < finish
        · rw [step_commands hnext]
          refine hmaintains.enter hsettled next returnLimit hinv fun waiting hmem => ?_
          obtain rfl | hlater := List.mem_cons.mp hmem
          · trivial
          · exact hrest waiting hlater
        · rw [step_commands_done (Nat.not_lt.mp hnext)]
          exact ⟨hinv, hrest⟩
      | rounds kind state start position =>
        obtain ⟨hstate, origin, entry, loop, hentry, hloop, rfl⟩ := hfirst
        obtain ⟨hnextState, hentered⟩ := hmaintains.reenter hentry hloop hstate hinv
        cases hagain : (loop.kind.reenter state run).again with
        | false =>
          rw [step_rounds_done hagain]
          exact ⟨hmaintains.finish loop.kind hnextState hentered, hrest⟩
        | true =>
          rw [step_rounds_again hagain]
          refine ⟨hentered, fun waiting hmem => ?_⟩
          rw [List.mem_cons, List.mem_cons] at hmem
          obtain rfl | rfl | hlater := hmem
          · trivial
          · exact ⟨hnextState, origin, entry, loop, hentry, hloop, rfl⟩
          · exact hrest waiting hlater
    · cases first with
      | commands next finish returnLimit =>
        rw [step_commands_settled hgoes]
        exact ⟨hinv, hrest⟩
      | rounds kind state start position =>
        rw [step_rounds_settled hgoes]
        exact ⟨hmaintains.finish kind hfirst.1 hinv, hrest⟩

/-- **Every point.** A condition that loops maintain and that settling a label leaves true holds
after every number of steps. -/
theorem Maintains.at_every_point (hmaintains : sequence.Maintains inv held)
    (hsettled : ∀ {run after : Run α} (position command : Nat),
      inv (run.visit position command) → Settled (run.visit position command) after → inv after)
    {run : Run α} (hinv : inv run) (steps : Nat) :
    inv (sequence.progress run steps).outcome.2 := by
  have hholds : (sequence.progress run steps).Holds sequence inv held := by
    induction steps with
    | zero =>
      refine ⟨hinv, fun waiting hmem => ?_⟩
      rw [List.mem_singleton.mp hmem]
      trivial
    | succ steps ih =>
      rw [progress, Function.iterate_succ_apply']
      exact hmaintains.step hsettled ih
  exact hholds.inv

/-! ### What is recorded -/

/-- A run has recorded no placement since it began, or one that tells how the request was at a
visit. -/
def Recorded (start run : Run α) : Prop :=
  run.request.placement = start.request.placement ∨
    ∃ visit ∈ run.visits, ∃ placement, run.request.placement = some placement ∧
      placement.Tells visit.request

omit [Trigonometric α] in
theorem Recorded.of_agrees {start before after : Run α} (hrecorded : Recorded start before)
    (hagrees : before.Agrees after) : Recorded start after := by
  rw [Recorded, hagrees.placement_eq, hagrees.visits]
  exact hrecorded

omit [Trigonometric α] in
theorem Recorded.visit {start run : Run α} (hrecorded : Recorded start run)
    (position command : Nat) : Recorded start (run.visit position command) := by
  obtain hsame | ⟨visit, hmem, htells⟩ := hrecorded
  · exact Or.inl hsame
  · exact Or.inr ⟨visit, List.mem_cons_of_mem _ hmem, htells⟩

theorem Recorded.settled {start run after : Run α} {position command : Nat}
    (hrecorded : Recorded start (run.visit position command))
    (hsettled : Settled (run.visit position command) after) : Recorded start after := by
  cases hsettled with
  | placed candidate status leader ideal =>
    exact Or.inr ⟨_, List.mem_cons_self,
      Run.exists_placement_place (run.visit position command) candidate status leader⟩
  | deferred | suppressed => exact hrecorded

theorem maintains_recorded (sequence : Sequence α) (start : Run α) :
    sequence.Maintains (Recorded start) fun _ _ => True where
  visit position command hrecorded := hrecorded.visit position command
  note _ hrecorded := hrecorded
  begins _ _ _ := trivial
  reenter _ _ _ _ _ hrecorded := ⟨trivial, hrecorded.of_agrees (LoopKind.agrees_reenter _ _ _)⟩
  finish kind _ _ _ hrecorded := hrecorded.of_agrees (kind.agrees_finish _ _)
  restore kind _ hrecorded := hrecorded.of_agrees (kind.agrees_restoreDeclared _)

/-- **Records.** At every point of a run, the placement is the one that it began with, or tells how
the request was at a visit. -/
theorem records_of_visits (sequence : Sequence α) (run : Run α) (steps : Nat) :
    Recorded run (sequence.progress run steps).outcome.2 :=
  (sequence.maintains_recorded run).at_every_point (fun _ _ => Recorded.settled) (Or.inl rfl) steps

end Sequence

end LabelPlacement
