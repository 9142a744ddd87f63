import Mathlib.Order.Bounds.Basic
import LabelPlacement.Proofs.Retries
import LabelPlacement.Proofs.Undoing

/-!
# Loops that run out

A loop whose rounds settle nothing goes on until it has no change left. How many rounds that takes,
and what they begin with, is read off the states between the rounds (`LoopKind.Exhausted`): a
reducing loop counts its steps from the value that it found, whatever its rounds do to the value in
the meantime. Two things besides the state decide whether there is another round, the least font
size and the words of the label, and no round changes either of them.
-/

namespace LabelPlacement

variable {α : Type}

/-! ### The beginnings of the rounds -/

/-- The runs that the rounds of a loop begin with, one for each time that its body is carried
out. -/
def LoopKind.roundStarts [Scalar α] (kind : LoopKind α) (body : Run α → Outcome α)
    (state : kind.State) (run : Run α) : List (Run α) :=
  if _again : (kind.reenter state run).again then
    (kind.reenter state run).run ::
      match body (kind.reenter state run).run with
      | (.ok false, after) => kind.roundStarts body (kind.reenter state run).state after
      | _ => []
  else []
termination_by kind.remaining state
decreasing_by exact kind.remaining_reenter_lt state run _again

/-- After each number of rounds a condition on the state of the loop and on the run holds, if the
rounds settle nothing: where a round begins there is a change left, and where the loop ends there is
none. -/
structure LoopKind.Exhausted [Scalar α] (kind : LoopKind α)
    (inv : Nat → kind.State → Run α → Prop) (starts : List (Run α)) : Prop where
  begins : ∀ round start, starts[round]? = some start → ∃ state run, inv round state run ∧
    (kind.reenter state run).again = true ∧ start = (kind.reenter state run).run
  ends : ∃ state run, inv starts.length state run ∧ (kind.reenter state run).again = false

namespace LoopKind

variable [Scalar α] {kind : LoopKind α} {body : Run α → Outcome α} {state : kind.State}
  {run : Run α}

theorem stagesByRound_eq_map (stages : Run α → List (Stage α)) :
    kind.stagesByRound body stages state run = (kind.roundStarts body state run).map stages := by
  fun_induction kind.roundStarts body state run with
  | case1 state run again ih =>
    rw [stagesByRound, dif_pos again, List.map_cons]
    congr 1
    cases body (kind.reenter state run).run with
    | mk result after =>
      cases result with
      | error error => rfl
      | ok settled =>
        cases settled with
        | false => exact ih after
        | true => rfl
  | case2 state run again =>
    rw [stagesByRound, dif_neg again]
    rfl

/-- **Exhaustion.** Rounds that settle nothing lead on from each condition to the next one, up to
the end of the loop. -/
theorem exhausted {inv : Nat → kind.State → Run α → Prop}
    (hround : ∀ round state run, inv round state run → (kind.reenter state run).again = true →
      ∀ after, body (kind.reenter state run).run = (.ok false, after) →
        inv (round + 1) (kind.reenter state run).state after)
    (hinv : inv 0 state run)
    (hopen : ∀ start ∈ kind.roundStarts body state run, (body start).1 = .ok false) :
    kind.Exhausted inv (kind.roundStarts body state run) := by
  fun_induction kind.roundStarts body state run generalizing inv with
  | case1 state run again ih =>
    rw [List.forall_mem_cons] at hopen
    obtain ⟨after, hafter⟩ : ∃ after, body (kind.reenter state run).run = (.ok false, after) :=
      ⟨_, Prod.ext hopen.1 rfl⟩
    rw [hafter] at hopen ⊢
    obtain ⟨hbegins, hends⟩ := ih after (fun round => hround (round + 1))
      (hround 0 state run hinv again after hafter) hopen.2
    refine ⟨fun round start hstart => ?_, hends⟩
    cases round with
    | zero => exact ⟨state, run, hinv, again, (Option.some.inj hstart).symm⟩
    | succ round => exact hbegins round start hstart
  | case2 state run again =>
    exact ⟨fun round start hstart => absurd hstart (by simp),
      state, run, hinv, by simpa using again⟩

/-- What a condition says about another round holds up to the end of the loop, and not there. -/
theorem Exhausted.goes_on {inv : Nat → kind.State → Run α → Prop} {starts : List (Run α)}
    (hexhausted : kind.Exhausted inv starts)
    {more : Nat → Prop}
    (hagain : ∀ round state run, inv round state run →
      ((kind.reenter state run).again = true ↔ more round)) :
    (∀ round < starts.length, more round) ∧ ¬more starts.length := by
  obtain ⟨hbegins, state, run, hinv, hdone⟩ := hexhausted
  refine ⟨fun round hround => ?_, fun hmore => ?_⟩
  · obtain ⟨state, run, hinv, htaken, -⟩ :=
      hbegins round starts[round] (List.getElem?_eq_getElem hround)
    exact (hagain round state run hinv).mp htaken
  · exact Bool.false_ne_true (hdone.symm.trans ((hagain _ state run hinv).mpr hmore))

theorem Exhausted.length_eq {inv : Nat → kind.State → Run α → Prop} {starts : List (Run α)}
    (hexhausted : kind.Exhausted inv starts) {count : Nat}
    (hagain : ∀ round state run, inv round state run →
      ((kind.reenter state run).again = true ↔ round < count)) : starts.length = count := by
  obtain ⟨hbefore, hdone⟩ := hexhausted.goes_on hagain
  refine Nat.le_antisymm (Nat.not_lt.mp fun hmore => ?_) (Nat.not_lt.mp hdone)
  exact Nat.lt_irrefl count (hbefore count hmore)

theorem rounds_of_open (hopen : ∀ start ∈ kind.roundStarts body state run,
    (body start).1 = .ok false) : (kind.rounds body state run).1 = .ok false := by
  fun_induction kind.roundStarts body state run with
  | case1 state run again ih =>
    rw [List.forall_mem_cons] at hopen
    obtain ⟨after, hafter⟩ : ∃ after, body (kind.reenter state run).run = (.ok false, after) :=
      ⟨_, Prod.ext hopen.1 rfl⟩
    rw [rounds, dif_pos again]
    rw [hafter] at hopen ⊢
    exact ih after hopen.2
  | case2 state run again => rw [rounds, dif_neg again]

/-- Every round takes one of those that remain. -/
theorem length_roundStarts_le :
    (kind.roundStarts body state run).length ≤ kind.remaining state := by
  fun_induction kind.roundStarts body state run with
  | case1 state run again ih =>
    have hless := kind.remaining_reenter_lt state run again
    rw [List.length_cons]
    split
    · exact Nat.lt_of_le_of_lt (ih _) hless
    · exact Nat.lt_of_le_of_lt (Nat.zero_le _) hless
  | case2 => exact Nat.zero_le _

/-- A loop that has no change left after its first one has a single round. -/
theorem roundStarts_eq_singleton (hagain : (kind.reenter state run).again = true)
    (hdone : ∀ after, (kind.reenter (kind.reenter state run).state after).again = false) :
    kind.roundStarts body state run = [(kind.reenter state run).run] := by
  rw [roundStarts, dif_pos hagain]
  congr 1
  split
  · rename_i after _
    rw [roundStarts, dif_neg (by rw [hdone after]; exact Bool.false_ne_true)]
  · rfl

/-! ### How often a loop carries out its body -/

/-- What the rounds of a loop that runs out begin with. A reducing loop has a round for each of its
steps that can be taken, a loop that only goes back once more has one, and so has a loop that
relaxes a constraint. -/
def RunsOut (begun : Run α) (starts : List (Run α)) : LoopKind α → Prop
  | .relax relaxation =>
    starts = [{ begun with relaxations := relaxation.applyTo begun.relaxations }]
  | .bufferSize buffer steps .reduce =>
    starts.length = steps ∧ ∀ round start, starts[round]? = some start →
      start.request.buffer buffer = Scalar.larger
        (begun.request.buffer buffer * (1 - Scalar.ofNat (round + 1) / Scalar.ofNat steps)) 0
  | .fontSize steps percent .reduce =>
    let size (step : Nat) : α :=
      begun.request.working.fontSize * (1 - Scalar.ofNat step * percent / 100)
    IsGreatest {count | count ≤ steps ∧ ∀ step, 1 ≤ step → step ≤ count →
        ¬size step ≤ 0 ∧ ¬size step < begun.workspace.options.minFontSize} starts.length ∧
      ∀ round start, starts[round]? = some start →
        start.request.working.fontSize = size (round + 1)
  | .stack lines .reduce =>
    starts.length = min lines begun.request.words.length - 1 ∧
      ∀ round start, starts[round]? = some start → start.request.working.stackLines = round + 2
  | .hide attempts => starts.length ≤ attempts.length
  | .bufferSize _ _ .loopAgain | .fontSize _ _ .loopAgain | .stack _ .loopAgain => starts = [begun]
  | .bufferSize _ _ .reset | .fontSize _ _ .reset | .stack _ .reset => False

/-- The runs that the rounds of a loop begin with when the loop itself begins with a run. -/
def startsOf (kind : LoopKind α) (body : Run α → Outcome α) (begun : Run α) : List (Run α) :=
  kind.roundStarts body (kind.begin begun) begun

section RunsOut

variable {begun : Run α}

theorem runsOut_relax (relaxation : Relaxation α) :
    RunsOut begun ((relax relaxation).startsOf body begun) (.relax relaxation) :=
  roundStarts_eq_singleton rfl fun _ => rfl

/-- A loop that only goes back once more changes nothing. -/
theorem runsOut_loopAgain {kind : LoopKind α} (hkind : (∃ buffer steps,
      kind = .bufferSize buffer steps .loopAgain) ∨ (∃ steps percent,
      kind = .fontSize steps percent .loopAgain) ∨ ∃ lines, kind = .stack lines .loopAgain) :
    RunsOut begun (kind.startsOf body begun) kind := by
  obtain ⟨buffer, steps, rfl⟩ | ⟨steps, percent, rfl⟩ | ⟨lines, rfl⟩ := hkind
  · exact roundStarts_eq_singleton rfl fun _ => rfl
  · exact roundStarts_eq_singleton rfl fun _ => rfl
  · exact roundStarts_eq_singleton rfl fun _ => rfl

theorem runsOut_bufferSize {buffer : BufferKind} {steps : Nat} {kind : LoopKind α}
    (hkind : kind = .bufferSize buffer steps .reduce)
    (hopen : ∀ start ∈ kind.startsOf body begun, (body start).1 = .ok false) :
    RunsOut begun (kind.startsOf body begun) kind := by
  subst hkind
  have hexhausted : Exhausted (.bufferSize buffer steps .reduce)
      (fun round (state : StepState α) _ => state = ⟨begun.request.buffer buffer, round⟩)
      (startsOf (.bufferSize buffer steps .reduce) body begun) := by
    refine exhausted ?_ rfl hopen
    rintro round state mid rfl htaken after -
    rw [reenter_bufferSize] at htaken ⊢
    split_ifs at htaken ⊢
    rfl
  refine ⟨hexhausted.length_eq ?_, fun round start hstart => ?_⟩
  · rintro round state mid rfl
    rw [reenter_bufferSize]
    split_ifs with hmore <;> simp [hmore]
  · obtain ⟨state, mid, rfl, htaken, rfl⟩ := hexhausted.begins round start hstart
    rw [reenter_bufferSize] at htaken ⊢
    split_ifs at htaken ⊢
    cases buffer <;> rfl

/-- The least font size decides with the number of steps, so the rounds have to leave it alone. -/
theorem runsOut_fontSize {steps : Nat} {percent : α} {kind : LoopKind α}
    (hkind : kind = .fontSize steps percent .reduce)
    (hoptions : ∀ run after, body run = (.ok false, after) →
      after.workspace.options = run.workspace.options)
    (hopen : ∀ start ∈ kind.startsOf body begun, (body start).1 = .ok false) :
    RunsOut begun (kind.startsOf body begun) kind := by
  subst hkind
  have hexhausted : Exhausted (.fontSize steps percent .reduce)
      (fun round (state : StepState α) mid =>
        state = ⟨begun.request.working.fontSize, round⟩ ∧
          mid.workspace.options = begun.workspace.options)
      (startsOf (.fontSize steps percent .reduce) body begun) := by
    refine exhausted ?_ ⟨rfl, rfl⟩ hopen
    rintro round state mid ⟨rfl, hmid⟩ htaken after hafter
    have hkept := hoptions _ after hafter
    rw [reenter_fontSize] at htaken hkept ⊢
    split_ifs at htaken hkept ⊢
    exact ⟨rfl, hkept.trans hmid⟩
  have hagain : ∀ round (state : StepState α) (mid : Run α),
      (state = ⟨begun.request.working.fontSize, round⟩ ∧
        mid.workspace.options = begun.workspace.options) →
      ((reenter (.fontSize steps percent .reduce) state mid).again = true ↔
        round < steps ∧ ¬reducedFontSize begun.request.working.fontSize percent (round + 1) ≤ 0 ∧
          ¬reducedFontSize begun.request.working.fontSize percent (round + 1) <
            begun.workspace.options.minFontSize) := by
    rintro round state mid ⟨rfl, hmid⟩
    rw [reenter_fontSize, hmid]
    split_ifs with hmore <;> simp [hmore]
  obtain ⟨hbefore, hdone⟩ := hexhausted.goes_on hagain
  refine ⟨⟨⟨?_, fun step hstep hcount => ?_⟩, fun count hcount => ?_⟩, fun round start hstart => ?_⟩
  · by_contra hmore
    obtain ⟨count, hcount⟩ :=
      Nat.exists_eq_succ_of_ne_zero (Nat.ne_zero_of_lt (Nat.not_le.mp hmore))
    have hlast := (hbefore count (by omega)).1
    omega
  · obtain ⟨round, rfl⟩ := Nat.exists_eq_add_of_le' hstep
    exact (hbefore round hcount).2
  · by_contra hmore
    have hless := Nat.not_le.mp hmore
    exact hdone ⟨Nat.lt_of_lt_of_le hless hcount.1, hcount.2 _ (Nat.succ_pos _) hless⟩
  · obtain ⟨state, mid, ⟨rfl, hmid⟩, htaken, rfl⟩ := hexhausted.begins round start hstart
    rw [reenter_fontSize] at htaken ⊢
    split_ifs at htaken ⊢
    rfl

/-- The words decide with the number of lines; they are those of the beginning where the rounds
leave the content alone. -/
theorem runsOut_stack {lines : Nat} {kind : LoopKind α} (hkind : kind = .stack lines .reduce)
    (hfirst : begun.request.content.HidesFirst) (hkept : ∀ run, Run.KeepsContent run (body run))
    (hopen : ∀ start ∈ kind.startsOf body begun, (body start).1 = .ok false) :
    RunsOut begun (kind.startsOf body begun) kind := by
  subst hkind
  have hexhausted : Exhausted (.stack lines .reduce)
      (fun round (state : StepState Nat) mid =>
        state = ⟨begun.request.working.stackLines, round⟩ ∧
          mid.request.content = begun.request.content)
      (startsOf (.stack lines .reduce) body begun) := by
    refine exhausted ?_ ⟨rfl, rfl⟩ hopen
    rintro round state mid ⟨rfl, hmid⟩ htaken after hafter
    have hkind : ∀ attempts, stack lines .reduce ≠ (.hide attempts : LoopKind α) := by simp
    have hcontent := content_reenter hkind ⟨begun.request.working.stackLines, round⟩ mid
    have hround := hkept _ (by rw [hcontent, hmid]; exact hfirst)
    rw [hafter] at hround
    refine ⟨?_, hround.trans (hcontent.trans hmid)⟩
    rw [reenter_stack] at htaken ⊢
    split_ifs at htaken ⊢
    rfl
  refine ⟨hexhausted.length_eq ?_, fun round start hstart => ?_⟩
  · rintro round state mid ⟨rfl, hmid⟩
    have hwords : mid.request.words = begun.request.words := congrArg Content.words hmid
    rw [reenter_stack, hwords]
    split_ifs with hmore
    · exact iff_of_true rfl (by omega)
    · exact iff_of_false (by simp) (by omega)
  · obtain ⟨state, mid, ⟨rfl, hmid⟩, htaken, rfl⟩ := hexhausted.begins round start hstart
    rw [reenter_stack] at htaken ⊢
    split_ifs at htaken ⊢
    rfl

/-- **Running out.** Every kind of loop that goes back to a target. -/
theorem runsOut {kind : LoopKind α} (hneeds : kind.needsTarget = true)
    (hfirst : begun.request.content.HidesFirst) (hkept : ∀ run, Run.KeepsContent run (body run))
    (hoptions : ∀ run after, body run = (.ok false, after) →
      after.workspace.options = run.workspace.options)
    (hopen : ∀ start ∈ kind.startsOf body begun, (body start).1 = .ok false) :
    RunsOut begun (kind.startsOf body begun) kind := by
  cases hkind : kind with
  | relax relaxation => exact runsOut_relax relaxation
  | hide attempts => exact length_roundStarts_le
  | bufferSize buffer steps action =>
    cases action with
    | reduce => exact hkind ▸ runsOut_bufferSize hkind hopen
    | loopAgain => exact runsOut_loopAgain (.inl ⟨buffer, steps, rfl⟩)
    | reset => rw [hkind] at hneeds; cases hneeds
  | fontSize steps percent action =>
    cases action with
    | reduce => exact hkind ▸ runsOut_fontSize hkind hoptions hopen
    | loopAgain => exact runsOut_loopAgain (.inr (.inl ⟨steps, percent, rfl⟩))
    | reset => rw [hkind] at hneeds; cases hneeds
  | stack lines action =>
    cases action with
    | reduce => exact hkind ▸ runsOut_stack hkind hfirst hkept hopen
    | loopAgain => exact runsOut_loopAgain (.inr (.inr ⟨lines, rfl⟩))
    | reset => rw [hkind] at hneeds; cases hneeds

end RunsOut

end LoopKind

/-- Whether nothing is settled can be looked up one run after the other. -/
theorem Outcome.forall_open {starts : List (Run α)} {body : Run α → Outcome α}
    (hall : (starts.all fun start => (body start).1 matches .ok false) = true) :
    ∀ start ∈ starts, (body start).1 = .ok false := by
  intro start hstart
  have hthis := List.all_eq_true.mp hall start hstart
  split at hthis
  · assumption
  · cases hthis

/-! ### Loops of a sequence -/

namespace Progress

/-- The position of the command that comes next, and the return limit of the loops around it. -/
def next? : Progress α → Option (Nat × Nat)
  | ⟨.commands next finish returnLimit :: _, .ok false, _⟩ =>
    if next < finish then some (next, returnLimit) else none
  | _ => none

theorem eq_of_next? {progress : Progress α} {position returnLimit : Nat}
    (hnext : progress.next? = some (position, returnLimit)) :
    ∃ finish rest, progress =
      ⟨.commands position finish returnLimit :: rest, .ok false, progress.outcome.2⟩ ∧
      position < finish := by
  rw [next?.eq_def] at hnext
  split at hnext
  · rename_i next finish limit rest run
    simp only [Option.ite_none_right_eq_some, Option.some.injEq, Prod.mk.injEq] at hnext
    obtain ⟨hbelow, rfl, rfl⟩ := hnext
    exact ⟨finish, rest, rfl, hbelow⟩
  · cases hnext

end Progress

namespace Sequence

variable [Trigonometric α]

/-- What a round of the loop at a position carries out, if it begins at `first`. -/
def body (sequence : Sequence α) (first position : Nat) : Run α → Outcome α :=
  inOrder first (position - first) fun inner _ _ => sequence.executeAt inner first

/-- The commands that such a round comes to. -/
def bodyStages (sequence : Sequence α) (first position : Nat) : Run α → List (Stage α) :=
  stagesInOrder first (position - first) (fun inner _ _ => sequence.executeAt inner first)
    fun inner _ _ => sequence.stagesAt inner first

variable {sequence : Sequence α}

theorem keepsContent_body (first position : Nat) (run : Run α) :
    run.KeepsContent (sequence.body first position run) :=
  sequence.respects_keepsContent.inOrder first (position - first) _
    (fun inner _ _ run => sequence.keepsContent_executeAt inner first run) run

theorem maintains_options (sequence : Sequence α) (options : PlacementOptions α) :
    sequence.Maintains (fun run => run.workspace.options = options) fun _ _ => True where
  visit _ _ hoptions := hoptions
  note _ hoptions := hoptions
  begins _ _ _ := trivial
  reenter _ _ state run _ hoptions :=
    ⟨trivial, by rw [(LoopKind.agrees_reenter _ state run).workspace]; exact hoptions⟩
  finish kind state run _ hoptions := by
    rw [(kind.agrees_finish state run).workspace]
    exact hoptions
  restore kind run hoptions := by
    rw [(kind.agrees_restoreDeclared run).workspace]
    exact hoptions

theorem options_body {first position : Nat} {run after : Run α}
    (hafter : sequence.body first position run = (.ok false, after)) :
    after.workspace.options = run.workspace.options := by
  have hrespects := (sequence.maintains_options run.workspace.options).respects
  have hreaches := hrespects.inOrder first (position - first)
    (fun inner _ _ => sequence.executeAt inner first)
    (fun inner _ _ run => hrespects.executeAt inner first run) run rfl
  rw [show inOrder first (position - first) _ run = _ from hafter] at hreaches
  exact hreaches.inv_of_unsettled (by simp)

/-- The rounds of a loop carry out its body once for each run that a round begins with. -/
theorem stagesAt_startsOf {position declared : Nat} {entry : Entry α} {loop : Loop α}
    (hentry : sequence.entryAt? position = some entry) (hloop : entry.command = .loop loop)
    (hneeds : loop.kind.needsTarget = true)
    (htarget : sequence.targetPosition? position loop = some declared) (returnLimit : Nat)
    (run : Run α) :
    sequence.stagesAt position returnLimit run =
      .outset position entry run ::
        ((loop.kind.startsOf (sequence.body (effectiveStart declared returnLimit) position)
            (run.visit position entry.id)).flatMap
          (sequence.bodyStages (effectiveStart declared returnLimit) position)).map
          (Stage.within ⟨position, effectiveStart declared returnLimit⟩) := by
  rw [stagesAt_roundsFrom hentry hloop hneeds htarget, roundsFrom, LoopKind.stagesByRound_eq_map,
    List.flatMap_def]
  rfl

/-- **Loops that run out.** Whatever loop a run comes to, at any depth, after its request was reset:
if each time that its body is carried out the body settles nothing, then the loop settles nothing
and the run goes on behind it. What is carried out until then are the loop and, for each of its
rounds, the body; and there are just as many rounds as the loop has changes to make, each with its
own one. -/
theorem open_rounds_run_out (workspace : Workspace α) {request : Request α}
    (hreset : request.IsReset) {steps position returnLimit declared : Nat} {entry : Entry α}
    {loop : Loop α}
    (hnext : (sequence.progress (.start workspace request) steps).next? =
      some (position, returnLimit))
    (hentry : sequence.entryAt? position = some entry) (hloop : entry.command = .loop loop)
    (hneeds : loop.kind.needsTarget = true)
    (htarget : sequence.targetPosition? position loop = some declared) :
    let point := sequence.progress (.start workspace request) steps
    let run := point.outcome.2
    let first := effectiveStart declared returnLimit
    let begun := run.visit position entry.id
    let starts := loop.kind.startsOf (sequence.body first position) begun
    (∀ start ∈ starts, (sequence.body first position start).1 = .ok false) →
      (sequence.executeAt position returnLimit run).1 = .ok false ∧
      (∃ finish rest, point.pending = .commands position finish returnLimit :: rest ∧
        sequence.Leads point ⟨.commands (position + 1) finish returnLimit :: rest,
          sequence.executeAt position returnLimit run⟩) ∧
      Visits run
        (.outset position entry run ::
          (starts.flatMap (sequence.bodyStages first position)).map
            (Stage.within ⟨position, first⟩))
        (sequence.executeAt position returnLimit run) ∧
      loop.kind.RunsOut begun starts := by
  intro point run first begun starts hopen
  obtain ⟨finish, rest, hpoint, hbelow⟩ := Progress.eq_of_next? hnext
  refine ⟨?_, ⟨finish, rest, congrArg Progress.pending hpoint, ?_⟩, ?_, ?_⟩
  · rw [executeAt_rounds hentry hloop hneeds htarget]
    exact LoopKind.rounds_of_open hopen
  · refine (Leads.of_step ?_).trans (sequence.leads_enter position returnLimit _ run)
    rw [show point = _ from hpoint, step_commands hbelow]
  · have hvisits := sequence.visits_executeAt position returnLimit run
    rwa [stagesAt_startsOf hentry hloop hneeds htarget] at hvisits
  · exact LoopKind.runsOut hneeds (sequence.hidesFirst_progress workspace hreset steps)
      (keepsContent_body first position) (fun _ _ => options_body) hopen

/-- A road whose label is made smaller in a loop around another one over its size, which gives back
the size that it finds. The third size would be below zero. -/
theorem road_has_two_smaller_sizes :
    let sequence : Sequence Rat :=
      ⟨[⟨1, .point ⟨[.north], 0⟩⟩, ⟨2, .loop ⟨.fontSize 1 50 .reduce, some 1⟩⟩,
        ⟨3, .loop ⟨.fontSize 3 40 .reduce, some 1⟩⟩], 4⟩
    let loop : Loop Rat := ⟨.fontSize 3 40 .reduce, some 1⟩
    let request : Request Rat :=
      .create 1 1 "road" (.line [⟨0, 0⟩, ⟨9, 0⟩]) (.single "Ab") ⟨10, ⟨1, 1⟩⟩
    let point := sequence.progress (.start (.empty .standard) request) 6
    let begun := point.outcome.2.visit 2 3
    let starts := loop.kind.startsOf (sequence.body 0 2) begun
    request.IsReset ∧ point.next? = some (2, 0) ∧
      (∀ start ∈ starts, (sequence.body 0 2 start).1 = .ok false) ∧
      starts.map (·.request.working.fontSize) = [6, 2] ∧ loop.kind.RunsOut begun starts := by
  intro sequence loop request point begun starts
  have hreset : request.IsReset := ⟨rfl, rfl⟩
  have hnext : point.next? = some (2, 0) := by decide +kernel
  have hopen : ∀ start ∈ starts, (sequence.body 0 2 start).1 = .ok false :=
    Outcome.forall_open (by decide +kernel)
  have hentry : sequence.entryAt? 2 = some ⟨3, .loop loop⟩ := rfl
  have htarget : sequence.targetPosition? 2 loop = some 0 := rfl
  have hout := open_rounds_run_out (.empty .standard) hreset hnext hentry rfl rfl htarget hopen
  exact ⟨hreset, hnext, hopen, by decide +kernel, hout.2.2.2⟩

/-- A road whose declared size is undefined, and undefined at each of the two steps. Neither step is
above zero, and both are taken: a size ends the loop only when it is known to be too small. -/
theorem undefined_size_takes_all_steps :
    let sequence : Sequence Float :=
      ⟨[⟨1, .point ⟨[.north], 0⟩⟩, ⟨2, .loop ⟨.fontSize 2 50 .reduce, some 1⟩⟩], 3⟩
    let loop : Loop Float := ⟨.fontSize 2 50 .reduce, some 1⟩
    let request : Request Float :=
      .create 1 1 "road" (.line [⟨0, 0⟩, ⟨9, 0⟩]) (.single "Ab") ⟨0 / 0, ⟨1, 1⟩⟩
    let point := sequence.progress (.start (.empty .standard) request) 1
    let begun := point.outcome.2.visit 1 2
    let starts := loop.kind.startsOf (sequence.body 0 1) begun
    let size (step : Nat) : Float :=
      begun.request.working.fontSize * (1 - Scalar.ofNat step * 50 / 100)
    request.IsReset ∧ point.next? = some (1, 0) ∧ sequence.targetPosition? 1 loop = some 0 ∧
      (∀ start ∈ starts, (sequence.body 0 1 start).1 = .ok false) ∧ starts.length = 2 ∧
      IsGreatest {count | count ≤ 2 ∧ ∀ step, 1 ≤ step → step ≤ count →
        0 < size step ∧ ¬size step < begun.workspace.options.minFontSize} 0 := by
  intro sequence loop request point begun starts size
  have hopen : ∀ start ∈ starts, (sequence.body 0 1 start).1 = .ok false :=
    Outcome.forall_open (by decide +kernel)
  have hundefined : ¬0 < size 1 := by decide +kernel
  refine ⟨⟨rfl, rfl⟩, by decide +kernel, rfl, hopen, by decide +kernel, ⟨by omega, by omega⟩, ?_⟩
  intro count hcount
  by_contra hsome
  exact hundefined (hcount.2 1 (Nat.le_refl 1) (by omega)).1

end Sequence

end LabelPlacement
