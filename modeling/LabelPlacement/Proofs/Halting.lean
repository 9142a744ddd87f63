import Mathlib.Algebra.Order.BigOperators.Group.Finset
import Mathlib.Logic.Function.Iterate
import Mathlib.Tactic.Ring
import LabelPlacement.Proofs.Exact
import LabelPlacement.Proofs.Settlement

/-!
# Every run comes to an end

`Sequence.execute` is a recursion on positions and on the rounds that a loop may still have. A run
that goes back knows of neither: it has commands to go on with and loops to have another round of.
`Sequence.step` is such a run, one step at a time over what is pending, and nothing in a step says
that there is a last one. There is (`Sequence.leads_outset`), whatever the targets and the
parameters of the loops are, and what comes out is the outcome of `Sequence.execute`.

How many commands that takes is bounded by the positions alone once a number bounds the parameters
that count rounds: a command at a position carries out at most those in front of it in each of its
rounds, which makes a geometric series.
-/

namespace LabelPlacement

variable {α : Type}

/-! ### One step at a time -/

/-- What is pending: the commands from a position up to another one, or the rounds of the loop at a
position, which begin at `start`. -/
inductive Pending (α : Type)
  | commands (next finish returnLimit : Nat)
  | rounds (kind : LoopKind α) (state : kind.State) (start position : Nat)

/-- How far a run has come: what is pending, the innermost first, and the outcome so far. While it
is that nothing is settled, the run goes on; any other outcome is handed through to the end. -/
structure Progress (α : Type) where
  pending : List (Pending α)
  outcome : Outcome α

namespace Sequence

variable [Trigonometric α]

/-- Carries out the command at a position; of a loop, the rounds are pending from then on. -/
def enter (sequence : Sequence α) (position returnLimit : Nat) (pending : List (Pending α))
    (run : Run α) : Progress α :=
  match sequence.entryAt? position with
  | none => ⟨pending, .ok false, run⟩
  | some entry =>
    let run := run.visit position entry.id
    match entry.command with
    | .loop loop =>
      if loop.kind.needsTarget then
        match sequence.targetPosition? position loop with
        | none => ⟨pending, .error (.unresolvedTarget entry.id), run⟩
        | some declared =>
          let start := effectiveStart declared returnLimit
          ⟨.rounds loop.kind (loop.kind.begin run) start position :: pending, .ok false, run⟩
      else ⟨pending, .ok false, loop.kind.restoreDeclared run⟩
    | command => ⟨pending, performSingle command run⟩

/-- One step: the next command, one more round of a loop or the end of it. A loop gives back what it
has changed also when the outcome is only handed through. -/
def step (sequence : Sequence α) : Progress α → Progress α
  | ⟨[], outcome⟩ => ⟨[], outcome⟩
  | ⟨.commands next finish returnLimit :: rest, .ok false, run⟩ =>
    if next < finish then
      sequence.enter next returnLimit (.commands (next + 1) finish returnLimit :: rest) run
    else ⟨rest, .ok false, run⟩
  | ⟨.commands .. :: rest, outcome⟩ => ⟨rest, outcome⟩
  | ⟨.rounds kind state start position :: rest, .ok false, run⟩ =>
    let entered := kind.reenter state run
    if entered.again then
      ⟨.commands start position start :: .rounds kind entered.state start position :: rest,
        .ok false, entered.run⟩
    else ⟨rest, .ok false, kind.finish entered.state entered.run⟩
  | ⟨.rounds kind state _ _ :: rest, result, run⟩ => ⟨rest, result, kind.finish state run⟩

/-- Nothing but the whole sequence is pending. -/
def outset (sequence : Sequence α) (run : Run α) : Progress α :=
  ⟨[.commands 0 sequence.length 0], .ok false, run⟩

/-- Some number of steps leads from one progress to another. -/
def Leads (sequence : Sequence α) (before after : Progress α) : Prop :=
  ∃ steps, sequence.step^[steps] before = after

variable {sequence : Sequence α}

theorem Leads.refl (progress : Progress α) : sequence.Leads progress progress := ⟨0, rfl⟩

theorem Leads.trans {first second third : Progress α} (hleft : sequence.Leads first second)
    (hright : sequence.Leads second third) : sequence.Leads first third := by
  obtain ⟨earlier, rfl⟩ := hleft
  obtain ⟨later, rfl⟩ := hright
  exact ⟨later + earlier, Function.iterate_add_apply _ _ _ _⟩

theorem Leads.of_step {before after : Progress α} (hstep : sequence.step before = after) :
    sequence.Leads before after := ⟨1, hstep⟩

section Pending

variable {rest : List (Pending α)} {run : Run α} {result : Except (LabelingError α) Bool}

theorem step_commands {next finish : Nat} (hnext : next < finish) (returnLimit : Nat) :
    sequence.step ⟨.commands next finish returnLimit :: rest, .ok false, run⟩ =
      sequence.enter next returnLimit (.commands (next + 1) finish returnLimit :: rest) run := by
  simp only [step, hnext, if_true]

theorem step_commands_done {next finish : Nat} (hdone : finish ≤ next) (returnLimit : Nat) :
    sequence.step ⟨.commands next finish returnLimit :: rest, .ok false, run⟩ =
      ⟨rest, .ok false, run⟩ := by
  simp only [step, Nat.not_lt.mpr hdone, if_false]

theorem step_commands_settled (hsettled : result ≠ .ok false) (next finish returnLimit : Nat) :
    sequence.step ⟨.commands next finish returnLimit :: rest, result, run⟩ =
      ⟨rest, result, run⟩ := by
  cases result with
  | error error => rfl
  | ok settled =>
    cases settled with
    | false => exact absurd rfl hsettled
    | true => rfl

theorem step_rounds_settled (hsettled : result ≠ .ok false) (kind : LoopKind α)
    (state : kind.State) (start position : Nat) :
    sequence.step ⟨.rounds kind state start position :: rest, result, run⟩ =
      ⟨rest, result, kind.finish state run⟩ := by
  cases result with
  | error error => rfl
  | ok settled =>
    cases settled with
    | false => exact absurd rfl hsettled
    | true => rfl

theorem step_rounds_again {kind : LoopKind α} {state : kind.State}
    (hagain : (kind.reenter state run).again = true) (start position : Nat) :
    sequence.step ⟨.rounds kind state start position :: rest, .ok false, run⟩ =
      ⟨.commands start position start ::
          .rounds kind (kind.reenter state run).state start position :: rest,
        .ok false, (kind.reenter state run).run⟩ := by
  simp only [step, hagain, if_true]

theorem step_rounds_done {kind : LoopKind α} {state : kind.State}
    (hdone : (kind.reenter state run).again = false) (start position : Nat) :
    sequence.step ⟨.rounds kind state start position :: rest, .ok false, run⟩ =
      ⟨rest, .ok false,
        kind.finish (kind.reenter state run).state (kind.reenter state run).run⟩ := by
  simp only [step, hdone, Bool.false_eq_true, if_false]

/-- Steps carry out commands in order as `inOrder` does, if they carry out each of them. -/
theorem leads_inOrder {start finish returnLimit : Nat}
    (hcommand : ∀ position, position < finish → ∀ pending run,
      sequence.Leads (sequence.enter position returnLimit pending run)
        ⟨pending, sequence.executeAt position returnLimit run⟩) :
    sequence.Leads ⟨.commands start finish returnLimit :: rest, .ok false, run⟩
      ⟨rest, inOrder start (finish - start)
        (fun position _ _ => sequence.executeAt position returnLimit) run⟩ := by
  have hnext : ∀ {position mid result after}, position < finish →
      sequence.executeAt position returnLimit mid = (result, after) →
      sequence.Leads ⟨.commands position finish returnLimit :: rest, .ok false, mid⟩
        ⟨.commands (position + 1) finish returnLimit :: rest, result, after⟩ := by
    intro position mid result after hbelow hafter
    have hentered := hcommand position hbelow
      (.commands (position + 1) finish returnLimit :: rest) mid
    rw [hafter] at hentered
    exact (Leads.of_step (step_commands hbelow returnLimit)).trans hentered
  refine inOrder_rule_at
    (fun position mid => sequence.Leads
      ⟨.commands start finish returnLimit :: rest, .ok false, run⟩
      ⟨.commands position finish returnLimit :: rest, .ok false, mid⟩)
    (fun outcome => sequence.Leads _ ⟨rest, outcome⟩) ?_ ?_ ?_ (.refl _)
  · intro position above below mid hmid after hafter
    exact hmid.trans (hnext (by omega) hafter)
  · rintro position above below mid hmid ⟨result, after⟩ hafter hsettled
    refine (hmid.trans (hnext (by omega) hafter)).trans (.of_step ?_)
    exact step_commands_settled hsettled (position + 1) finish returnLimit
  · intro mid hmid
    exact hmid.trans (.of_step (step_commands_done (by omega) returnLimit))

/-- Steps have the rounds of a loop as `LoopKind.rounds` does, if they carry out its body. -/
theorem leads_rounds {kind : LoopKind α} {body : Run α → Outcome α} {start position : Nat}
    (hbody : ∀ pending run,
      sequence.Leads ⟨.commands start position start :: pending, .ok false, run⟩
        ⟨pending, body run⟩)
    (state : kind.State) :
    sequence.Leads ⟨.rounds kind state start position :: rest, .ok false, run⟩
      ⟨rest, kind.rounds body state run⟩ := by
  have hround : ∀ {current : kind.State} {mid : Run α} {result after},
      (kind.reenter current mid).again = true →
      body (kind.reenter current mid).run = (result, after) →
      sequence.Leads ⟨.rounds kind current start position :: rest, .ok false, mid⟩
        ⟨.rounds kind (kind.reenter current mid).state start position :: rest,
          result, after⟩ := by
    intro current mid result after hagain hafter
    rw [← hafter]
    exact (Leads.of_step (step_rounds_again hagain start position)).trans (hbody _ _)
  refine LoopKind.rounds_rule
    (fun current mid => sequence.Leads ⟨.rounds kind state start position :: rest, .ok false, run⟩
      ⟨.rounds kind current start position :: rest, .ok false, mid⟩)
    (fun outcome => sequence.Leads _ ⟨rest, outcome⟩) ?_ ?_ ?_ state run (.refl _)
  · intro current mid hmid hagain after hafter
    exact hmid.trans (hround hagain hafter)
  · intro current mid hmid hagain result after hafter hsettled
    refine (hmid.trans (hround hagain hafter)).trans (.of_step ?_)
    exact step_rounds_settled hsettled kind (kind.reenter current mid).state start position
  · intro current mid hmid hdone
    exact hmid.trans (.of_step (step_rounds_done hdone start position))

end Pending

/-- **One command.** By the position: the body of a loop stands in front of it. -/
theorem leads_enter (sequence : Sequence α) (position returnLimit : Nat)
    (pending : List (Pending α)) (run : Run α) :
    sequence.Leads (sequence.enter position returnLimit pending run)
      ⟨pending, sequence.executeAt position returnLimit run⟩ := by
  induction position using Nat.strongRecOn generalizing returnLimit pending run with
  | _ position ih =>
    cases sequence.commandAt position with
    | absent hentry =>
      rw [executeAt_absent hentry, enter, hentry]
      exact .refl _
    | @single entry hentry hsingle =>
      rw [executeAt_single hentry hsingle, enter, hentry]
      cases hcommand : entry.command with
      | loop loop => rw [hcommand] at hsingle; cases hsingle
      | line | point | area | leader | failure => simpa only [hcommand] using .refl _
    | reset hentry hloop hneeds =>
      rw [executeAt_reset hentry hloop hneeds, enter, hentry]
      simpa only [hloop, hneeds] using .refl _
    | unresolved hentry hloop hneeds htarget =>
      rw [executeAt_unresolved hentry hloop hneeds htarget, enter, hentry]
      simpa only [hloop, hneeds, htarget] using .refl _
    | rounds hentry hloop hneeds htarget =>
      rw [executeAt_rounds hentry hloop hneeds htarget, enter, hentry]
      simp only [hloop, hneeds, htarget, if_true]
      refine leads_rounds (fun pending run => leads_inOrder ?_) _
      exact fun inner hinner pending run => ih inner hinner _ pending run

/-- **The end of a run.** -/
theorem leads_outset (sequence : Sequence α) (run : Run α) :
    sequence.Leads (sequence.outset run) ⟨[], sequence.execute run⟩ := by
  rw [execute, executeRange, Nat.min_self]
  apply leads_inOrder
  exact fun position _ pending run => sequence.leads_enter position 0 pending run

end Sequence

/-! ### The commands that are carried out -/

/-- A run has come from another one with at most a number of visits in between. -/
def Run.Within (run : Run α) (count : Nat) (after : Run α) : Prop :=
  ∃ visits, after.visits = visits ++ run.visits ∧ visits.length ≤ count

namespace Run

theorem within_refl (run : Run α) : run.Within 0 run := ⟨[], rfl, Nat.le_refl _⟩

theorem within_visit (run : Run α) (position command : Nat) :
    run.Within 1 (run.visit position command) :=
  ⟨[_], rfl, Nat.le_refl _⟩

theorem Within.congr {run mid after : Run α} {count : Nat} (hwithin : run.Within count mid)
    (hvisits : after.visits = mid.visits) : run.Within count after := by
  rwa [Within, hvisits]

theorem Within.trans {first second third : Run α} {count other : Nat}
    (hleft : first.Within count second) (hright : second.Within other third) :
    first.Within (count + other) third := by
  obtain ⟨earlier, hearlier, hcount⟩ := hleft
  obtain ⟨later, hlater, hother⟩ := hright
  refine ⟨later ++ earlier, by rw [hlater, hearlier, List.append_assoc], ?_⟩
  rw [List.length_append]
  omega

theorem Within.mono {run after : Run α} {count other : Nat} (hwithin : run.Within count after)
    (hle : count ≤ other) : run.Within other after := by
  obtain ⟨visits, hvisits, hcount⟩ := hwithin
  exact ⟨visits, hvisits, Nat.le_trans hcount hle⟩

theorem Within.exists_history {run after : Run α} {count : Nat} (hwithin : run.Within count after) :
    ∃ recorded, after.history = run.history ++ recorded ∧ recorded.length ≤ count := by
  obtain ⟨visits, hvisits, hcount⟩ := hwithin
  refine ⟨(visits.map (·.command)).reverse, ?_, by simpa using hcount⟩
  rw [history, history, hvisits, List.map_append, List.reverse_append]

end Run

/-- The parameter of a loop that counts what it can do: steps, lines or attempts. -/
def LoopKind.count : LoopKind α → Nat
  | .relax _ => 0
  | .bufferSize _ steps _ => steps
  | .fontSize steps _ _ => steps
  | .stack lines _ => lines
  | .hide attempts => attempts.length

/-- No loop of the sequence has a larger parameter that counts what it can do. -/
def Sequence.CountsUpTo (sequence : Sequence α) (most : Nat) : Prop :=
  ∀ entry ∈ sequence.entries, ∀ loop, entry.command = .loop loop → loop.kind.count ≤ most

theorem LoopKind.remaining_begin_le {kind : LoopKind α} {most : Nat} (hpositive : 1 ≤ most)
    (hcount : kind.count ≤ most) (run : Run α) : kind.remaining (kind.begin run) ≤ most := by
  cases kind with
  | relax relaxation => exact hpositive
  | bufferSize buffer steps action =>
    simp only [remaining, begin, count] at hcount ⊢
    split <;> omega
  | fontSize steps percent action =>
    simp only [remaining, begin, count] at hcount ⊢
    split <;> omega
  | stack lines action =>
    simp only [remaining, begin, count] at hcount ⊢
    split <;> omega
  | hide attempts => exact hcount

/-- Each round takes one of those that remain. -/
theorem LoopKind.within_rounds [Scalar α] {kind : LoopKind α} {body : Run α → Outcome α}
    {each : Nat} (hbody : ∀ run : Run α, run.Within each (body run).2) (state : kind.State)
    (run : Run α) : run.Within (kind.remaining state * each) (kind.rounds body state run).2 := by
  have hround : ∀ {current : kind.State} {mid after : Run α} {made : Nat} {result},
      run.Within (made * each) mid → body (kind.reenter current mid).run = (result, after) →
      run.Within ((made + 1) * each) after := by
    intro current mid after made result hmid hafter
    have hbodied := hbody (kind.reenter current mid).run
    rw [hafter] at hbodied
    have hadded := (hmid.congr (kind.agrees_reenter current mid).visits).trans hbodied
    rwa [← Nat.succ_mul] at hadded
  refine rounds_rule
    (fun current mid => ∃ made, made + kind.remaining current ≤ kind.remaining state ∧
      run.Within (made * each) mid)
    (fun outcome => run.Within (kind.remaining state * each) outcome.2) ?_ ?_ ?_ state run
    ⟨0, by omega, by simpa using run.within_refl⟩
  · rintro current mid ⟨made, hmade, hmid⟩ hagain after hafter
    have hless := kind.remaining_reenter_lt current mid hagain
    exact ⟨made + 1, by omega, hround hmid hafter⟩
  · rintro current mid ⟨made, hmade, hmid⟩ hagain result after hafter _
    have hless := kind.remaining_reenter_lt current mid hagain
    have hfinished := kind.agrees_finish (kind.reenter current mid).state after
    have hended := (hround hmid hafter).congr hfinished.visits
    exact hended.mono (Nat.mul_le_mul_right each (by omega))
  · rintro current mid ⟨made, hmade, hmid⟩ _
    have hentered := hmid.congr (kind.agrees_reenter current mid).visits
    have hended := hentered.congr (kind.agrees_finish (kind.reenter current mid).state _).visits
    exact hended.mono (Nat.mul_le_mul_right each (by omega))

/-! ### A geometric series -/

/-- What the commands in front of a position come to, if each comes to a power of its position. -/
def workload (most position : Nat) : Nat := ∑ earlier ∈ Finset.range position, (1 + most) ^ earlier

theorem workload_succ (most position : Nat) :
    workload most (position + 1) = workload most position + (1 + most) ^ position :=
  Finset.sum_range_succ _ _

theorem workload_mono (most : Nat) {position other : Nat} (hle : position ≤ other) :
    workload most position ≤ workload most other :=
  Finset.sum_le_sum_of_subset (Finset.range_mono hle)

theorem one_add_mul_workload (most position : Nat) :
    1 + most * workload most position = (1 + most) ^ position := by
  induction position with
  | zero => rfl
  | succ position ih =>
    calc 1 + most * workload most (position + 1)
        = (1 + most * workload most position) + most * (1 + most) ^ position := by
          rw [workload_succ]
          ring
      _ = (1 + most) ^ (position + 1) := by
          rw [ih]
          ring

theorem workload_eq {most : Nat} (hpositive : 1 ≤ most) (position : Nat) :
    workload most position = ((1 + most) ^ position - 1) / most := by
  rw [← one_add_mul_workload, Nat.add_sub_cancel_left, Nat.mul_div_cancel_left _ hpositive]

/-- Commands in order come to what separates the positions at their ends. -/
theorem within_inOrder {most start count : Nat}
    {step : (position : Nat) → start ≤ position → position < start + count → Run α → Outcome α}
    (hstep : ∀ position above below, ∀ run : Run α,
      run.Within ((1 + most) ^ position) (step position above below run).2)
    (run : Run α) : ∃ made, made + workload most start ≤ workload most (start + count) ∧
      run.Within made (inOrder start count step run).2 := by
  have hnext : ∀ {position : Nat} {mid after : Run α},
      (∃ made, made + workload most start ≤ workload most position ∧ run.Within made mid) →
      mid.Within ((1 + most) ^ position) after →
      ∃ made, made + workload most start ≤ workload most (position + 1) ∧
        run.Within made after := by
    rintro position mid after ⟨made, hmade, hmid⟩ hafter
    exact ⟨_, by rw [workload_succ]; omega, hmid.trans hafter⟩
  refine inOrder_rule_at
    (fun position mid => ∃ made, made + workload most start ≤ workload most position ∧
      run.Within made mid)
    (fun outcome => ∃ made, made + workload most start ≤ workload most (start + count) ∧
      run.Within made outcome.2) ?_ ?_ (fun _ hmid => hmid)
    ⟨0, by omega, run.within_refl⟩
  · intro position above below mid hmid after hafter
    have hadded := hstep position above below mid
    rw [hafter] at hadded
    exact hnext hmid hadded
  · rintro position above below mid hmid outcome rfl _
    obtain ⟨made, hmade, hafter⟩ := hnext hmid (hstep position above below mid)
    exact ⟨made, hmade.trans (workload_mono most (by omega)), hafter⟩

namespace Sequence

variable [Trigonometric α] {sequence : Sequence α} {most : Nat}

/-- **One command.** It comes to itself and, in each round, to what those in front of it do. -/
theorem within_executeAt (hpositive : 1 ≤ most) (hcounts : sequence.CountsUpTo most)
    (position returnLimit : Nat) (run : Run α) :
    run.Within ((1 + most) ^ position) (sequence.executeAt position returnLimit run).2 := by
  induction position using Nat.strongRecOn generalizing returnLimit run with
  | _ position ih =>
    have hone : 1 ≤ (1 + most) ^ position := Nat.one_le_pow _ _ (by omega)
    cases sequence.commandAt position with
    | absent hentry =>
      rw [executeAt_absent hentry]
      exact run.within_refl.mono (Nat.zero_le _)
    | @single entry hentry hsingle =>
      rw [executeAt_single hentry hsingle]
      exact ((run.within_visit position entry.id).congr (visits_performSingle hsingle _)).mono hone
    | @reset entry loop hentry hloop hneeds =>
      rw [executeAt_reset hentry hloop hneeds]
      have hvisited := run.within_visit position entry.id
      exact (hvisited.congr (LoopKind.agrees_restoreDeclared loop.kind _).visits).mono hone
    | unresolved hentry hloop hneeds htarget =>
      rw [executeAt_unresolved hentry hloop hneeds htarget]
      exact (run.within_visit _ _).mono hone
    | @rounds entry loop declared hentry hloop hneeds htarget =>
      rw [executeAt_rounds hentry hloop hneeds htarget]
      generalize effectiveStart declared returnLimit = start
      have hbody : ∀ run : Run α, run.Within (workload most position)
          (inOrder start (position - start)
            (fun inner _ _ => sequence.executeAt inner start) run).2 := by
        intro run
        have hinner : ∀ inner, start ≤ inner → inner < start + (position - start) →
            ∀ run : Run α, run.Within ((1 + most) ^ inner) (sequence.executeAt inner start run).2 :=
          fun inner above below run => ih inner (by omega) start run
        obtain ⟨made, hmade, hwithin⟩ := within_inOrder hinner run
        -- A return limit behind the loop leaves nothing to carry out.
        refine hwithin.mono ?_
        rcases Nat.le_total start position with hle | hle
        · rw [Nat.add_sub_cancel' hle] at hmade
          omega
        · rw [Nat.sub_eq_zero_of_le hle, Nat.add_zero] at hmade
          omega
      rw [← one_add_mul_workload]
      have hremaining := LoopKind.remaining_begin_le hpositive
        (hcounts entry (List.mem_of_getElem? hentry) loop hloop) (run.visit position entry.id)
      refine ((run.within_visit position entry.id).trans
        (LoopKind.within_rounds hbody _ _)).mono ?_
      exact Nat.add_le_add_left (Nat.mul_le_mul_right _ hremaining) 1

/-- **The whole sequence.** -/
theorem within_execute (hpositive : 1 ≤ most) (hcounts : sequence.CountsUpTo most) (run : Run α) :
    run.Within (((1 + most) ^ sequence.length - 1) / most) (sequence.execute run).2 := by
  have hinner : ∀ position, 0 ≤ position →
      position < 0 + (min sequence.length sequence.length - 0) → ∀ run : Run α,
        run.Within ((1 + most) ^ position) (sequence.executeAt position 0 run).2 :=
    fun position _ _ run => within_executeAt hpositive hcounts position 0 run
  obtain ⟨made, hmade, hwithin⟩ := within_inOrder hinner run
  rw [← workload_eq hpositive]
  rw [Nat.min_self, Nat.sub_zero, Nat.zero_add] at hmade
  exact hwithin.mono (Nat.le_of_add_right_le hmade)

/-- **Every run comes to an end.** Whatever the targets and the parameters of its loops are, a
sequence is carried out in some number of steps, and then nothing is pending. If a number from 1 on
bounds the parameters that count steps, lines and attempts, then the command at a position records
at most a power of the next number, and a whole run at most the sum of these powers. -/
theorem execute_halts (sequence : Sequence α) :
    (∀ run, ∃ steps,
      sequence.step^[steps] (sequence.outset run) = ⟨[], sequence.execute run⟩) ∧
    ∀ most, 1 ≤ most → sequence.CountsUpTo most →
      (∀ position returnLimit run, ∃ recorded,
        (sequence.executeAt position returnLimit run).2.history = run.history ++ recorded ∧
          recorded.length ≤ (1 + most) ^ position) ∧
      ∀ run, ∃ recorded, (sequence.execute run).2.history = run.history ++ recorded ∧
        recorded.length ≤ ((1 + most) ^ sequence.length - 1) / most := by
  refine ⟨sequence.leads_outset, fun most hpositive hcounts => ⟨?_, fun run => ?_⟩⟩
  · intro position returnLimit run
    exact (within_executeAt hpositive hcounts position returnLimit run).exists_history
  · exact (within_execute hpositive hcounts run).exists_history

/-- Two loops of two rounds each, the second one around the first. They reach both bounds. -/
theorem nested_loops_reach_bounds :
    let sequence : Sequence Rat :=
      ⟨[⟨1, .point ⟨[], 0⟩⟩, ⟨2, .loop ⟨.bufferSize .label 2 .reduce, some 1⟩⟩,
        ⟨3, .loop ⟨.fontSize 2 10 .reduce, some 1⟩⟩], 4⟩
    let run : Run Rat := .start (.empty .standard)
      (.create 1 1 "town" (.point ⟨0, 0⟩) (.single "Bern") ⟨10, ⟨1, 1⟩⟩)
    sequence.CountsUpTo 2 ∧
      (sequence.executeAt 2 0 run).2.history = [3, 1, 2, 1, 1, 1, 2, 1, 1] ∧
      (sequence.execute run).2.history = [1, 2, 1, 1, 3, 1, 2, 1, 1, 1, 2, 1, 1] ∧
      (∃ recorded, (sequence.executeAt 2 0 run).2.history = run.history ++ recorded ∧
        recorded.length ≤ (1 + 2) ^ 2) ∧
      ∃ recorded, (sequence.execute run).2.history = run.history ++ recorded ∧
        recorded.length ≤ ((1 + 2) ^ 3 - 1) / 2 := by
  intro sequence run
  have hcounts : sequence.CountsUpTo 2 := by
    intro entry hmem loop hloop
    simp only [sequence, List.mem_cons, List.not_mem_nil, or_false] at hmem
    obtain rfl | rfl | rfl := hmem <;> cases hloop <;> decide
  obtain ⟨hcommand, hwhole⟩ := (execute_halts sequence).2 2 (by decide) hcounts
  exact ⟨hcounts, by decide +kernel, by decide +kernel, hcommand 2 0 run, hwhole run⟩

end Sequence

end LabelPlacement
