import Mathlib.Tactic.ByContra
import Mathlib.Tactic.SplitIfs
import LabelPlacement.Run.Runner

/-!
# Rules of execution

A sequence is carried out by three recursions: commands in order, the rounds of a loop, and a
command that leads to those in front of it. Each gets one rule here, and every later statement about
carrying out a sequence goes through them.

What a round of a reducing loop changes, and when there is none left, is said once for each kind
(`LoopKind.reenter_bufferSize`, `LoopKind.reenter_fontSize`, `LoopKind.reenter_stack`).

`Sequence.Respects` lists what a relation between a run and its outcome has to satisfy at single
commands and at loops; `Sequence.Respects.executeAt` then gives it for every command, however deep
loops are nested, and `Sequence.Respects.execute` for the whole sequence.
-/

namespace LabelPlacement

variable {α : Type}

/-- **Commands in order.** A relation that holds of doing nothing, and of two steps when it holds of
each, holds of all steps in order when it holds of each one. -/
theorem inOrder_rule {holds : Run α → Outcome α → Prop}
    (hskip : ∀ run, holds run (.ok false, run))
    (hseq : ∀ {run mid outcome}, holds run (.ok false, mid) → holds mid outcome →
      holds run outcome)
    (start count : Nat)
    (step : (position : Nat) → start ≤ position → position < start + count → Run α → Outcome α)
    (hstep : ∀ position above below run, holds run (step position above below run))
    (run : Run α) : holds run (inOrder start count step run) := by
  induction count generalizing start run with
  | zero => exact hskip run
  | succ count ih =>
    have hfirst := hstep start (Nat.le_refl _) (by omega) run
    rw [inOrder]
    split
    · rename_i mid hmid
      rw [hmid] at hfirst
      refine hseq hfirst (ih (start + 1) _ (fun position above below run => ?_) mid)
      exact hstep position (by omega) (by omega) run
    · exact hfirst

/-- **Up to a step.** If a condition on positions and runs goes on from each step that settles
nothing to the next one, what follows from it wherever the steps can end holds of their outcome. -/
theorem inOrder_rule_at (inv : Nat → Run α → Prop) (post : Outcome α → Prop) {start count : Nat}
    {step : (position : Nat) → start ≤ position → position < start + count → Run α → Outcome α}
    (hstep : ∀ position above below run, inv position run →
      ∀ after, step position above below run = (.ok false, after) → inv (position + 1) after)
    (hsettled : ∀ position above below run, inv position run →
      ∀ outcome, step position above below run = outcome → outcome.1 ≠ .ok false → post outcome)
    (hdone : ∀ run, inv (start + count) run → post (.ok false, run))
    {run : Run α} (hinv : inv start run) : post (inOrder start count step run) := by
  induction count generalizing start run with
  | zero => exact hdone run hinv
  | succ count ih =>
    rw [inOrder]
    split
    · rename_i after hafter
      refine ih (fun position above below run => hstep position (by omega) (by omega) run)
        (fun position above below run => hsettled position (by omega) (by omega) run)
        (fun run hend => hdone run ?_)
        (hstep start (Nat.le_refl _) (by omega) run hinv after hafter)
      rwa [Nat.add_assoc, Nat.add_comm 1 count] at hend
    · rename_i hopen
      refine hsettled start (Nat.le_refl _) (by omega) run hinv _ rfl fun hfalse => ?_
      exact hopen _ (Prod.ext hfalse rfl)

/-- **Rounds.** If a condition on the loop's state and the run holds at the start and after every
round that settles nothing, what follows from it wherever the loop can end holds of its outcome. -/
theorem LoopKind.rounds_rule [Scalar α] {kind : LoopKind α} {body : Run α → Outcome α}
    (inv : kind.State → Run α → Prop) (post : Outcome α → Prop)
    (hround : ∀ state run, inv state run → (kind.reenter state run).again = true →
      ∀ after, body (kind.reenter state run).run = (.ok false, after) →
        inv (kind.reenter state run).state after)
    (hsettled : ∀ state run, inv state run → (kind.reenter state run).again = true →
      ∀ outcome after, body (kind.reenter state run).run = (outcome, after) →
        outcome ≠ .ok false → post (outcome, kind.finish (kind.reenter state run).state after))
    (hdone : ∀ state run, inv state run → (kind.reenter state run).again = false →
      post (.ok false, kind.finish (kind.reenter state run).state (kind.reenter state run).run))
    (state : kind.State) (run : Run α) (hinv : inv state run) :
    post (kind.rounds body state run) := by
  induction hremaining : kind.remaining state using Nat.strongRecOn
    generalizing state run with
  | _ remaining ih =>
    rw [rounds]
    split
    · rename_i hagain
      split
      · rename_i after hbody
        have hless := kind.remaining_reenter_lt state run hagain
        exact ih _ (hremaining ▸ hless) _ _ (hround state run hinv hagain after hbody) rfl
      · rename_i outcome after hopen hbody
        exact hsettled state run hinv hagain outcome after hbody hopen
    · rename_i hagain
      exact hdone state run hinv (by simpa using hagain)

/-! ### Changes that are left -/

namespace LoopKind

variable [Scalar α]

/-- A loop over a buffer has a change left for each of its steps. -/
theorem reenter_bufferSize (buffer : BufferKind) (entry : α) (steps round : Nat) (run : Run α) :
    reenter (.bufferSize buffer steps .reduce) ⟨entry, round⟩ run =
      if round < steps then
        ⟨true, ⟨entry, round + 1⟩,
          run.mapRequest (·.setBuffer buffer (reducedBuffer entry steps (round + 1)))⟩
      else ⟨false, ⟨entry, round⟩, run⟩ := by
  simp only [reenter, reduceCtorEq, if_false]
  split_ifs <;> first | rfl | omega

/-- A loop over the font size has a change left while there are steps and the next size can be
used. -/
theorem reenter_fontSize (steps : Nat) (percent entry : α) (round : Nat) (run : Run α) :
    reenter (.fontSize steps percent .reduce) ⟨entry, round⟩ run =
      if round < steps ∧ ¬reducedFontSize entry percent (round + 1) ≤ 0 ∧
          ¬reducedFontSize entry percent (round + 1) < run.workspace.options.minFontSize then
        ⟨true, ⟨entry, round + 1⟩,
          run.mapRequest (·.setFontSize (reducedFontSize entry percent (round + 1)))⟩
      else ⟨false, ⟨entry, round⟩, run⟩ := by
  simp only [reenter, reduceCtorEq, if_false]
  by_cases hmore : round < steps ∧ ¬reducedFontSize entry percent (round + 1) ≤ 0 ∧
      ¬reducedFontSize entry percent (round + 1) < run.workspace.options.minFontSize
  · rw [if_pos hmore, if_neg]
    rintro (hsteps | hnone | hsmall)
    · exact absurd hmore.1 (Nat.not_lt.mpr hsteps)
    · exact hmore.2.1 hnone
    · exact hmore.2.2 hsmall
  · rw [if_neg hmore, if_pos]
    by_contra hnot
    rw [not_or, not_or] at hnot
    exact hmore ⟨Nat.not_le.mp hnot.1, hnot.2⟩

/-- A stack loop has a change left while there are words for one more line. -/
theorem reenter_stack (lines entry round : Nat) (run : Run α) :
    reenter (.stack lines .reduce) ⟨entry, round⟩ run =
      if round + 2 ≤ lines ∧ round + 2 ≤ run.request.words.length then
        ⟨true, ⟨entry, round + 1⟩, { run with request := run.request.withStackLines (round + 2) }⟩
      else ⟨false, ⟨entry, round⟩, run⟩ := by
  simp only [reenter, reduceCtorEq, if_false, Request.stack?]
  by_cases hlines : round + 2 ≤ lines
  · rw [if_neg (Nat.not_lt.mpr hlines)]
    by_cases hwords : round + 2 ≤ run.request.words.length
    · simp [hlines, hwords, Nat.not_lt.mpr hwords]
    · simp [hwords, Nat.not_le.mp hwords]
  · rw [if_pos (Nat.not_le.mp hlines), if_neg (fun hmore => hlines hmore.1)]

end LoopKind

/-! ### Commands -/

namespace Sequence

variable [Trigonometric α]

/-- What carrying out the command at a position comes to: there may be none, it may be no loop, and
a loop may return to the declared style, lack its target, or have its rounds. -/
inductive CommandAt (sequence : Sequence α) (position : Nat) : Prop
  | absent (hentry : sequence.entryAt? position = none)
  | single {entry : Entry α} (hentry : sequence.entryAt? position = some entry)
      (hsingle : entry.command.loop? = none)
  | reset {entry : Entry α} {loop : Loop α} (hentry : sequence.entryAt? position = some entry)
      (hloop : entry.command = .loop loop) (hneeds : loop.kind.needsTarget = false)
  | unresolved {entry : Entry α} {loop : Loop α} (hentry : sequence.entryAt? position = some entry)
      (hloop : entry.command = .loop loop) (hneeds : loop.kind.needsTarget = true)
      (htarget : sequence.targetPosition? position loop = none)
  | rounds {entry : Entry α} {loop : Loop α} {declared : Nat}
      (hentry : sequence.entryAt? position = some entry) (hloop : entry.command = .loop loop)
      (hneeds : loop.kind.needsTarget = true)
      (htarget : sequence.targetPosition? position loop = some declared)

omit [Trigonometric α] in
theorem commandAt (sequence : Sequence α) (position : Nat) : sequence.CommandAt position := by
  cases hentry : sequence.entryAt? position with
  | none => exact .absent hentry
  | some entry =>
    cases hcommand : entry.command with
    | loop loop =>
      cases hneeds : loop.kind.needsTarget with
      | false => exact .reset hentry hcommand hneeds
      | true =>
        cases htarget : sequence.targetPosition? position loop with
        | none => exact .unresolved hentry hcommand hneeds htarget
        | some declared => exact .rounds hentry hcommand hneeds htarget
    | line | point | area | leader | failure => exact .single hentry (by rw [hcommand]; rfl)

section

variable {sequence : Sequence α} {position : Nat} {entry : Entry α} {loop : Loop α}

theorem executeAt_absent (hentry : sequence.entryAt? position = none) (returnLimit : Nat)
    (run : Run α) : sequence.executeAt position returnLimit run = (.ok false, run) := by
  rw [executeAt, hentry]

theorem executeAt_single (hentry : sequence.entryAt? position = some entry)
    (hsingle : entry.command.loop? = none) (returnLimit : Nat) (run : Run α) :
    sequence.executeAt position returnLimit run =
      performSingle entry.command (run.visit position entry.id) := by
  rw [executeAt, hentry]
  cases hcommand : entry.command with
  | loop loop => rw [hcommand] at hsingle; cases hsingle
  | line | point | area | leader | failure => simp only [hcommand]

theorem executeAt_reset (hentry : sequence.entryAt? position = some entry)
    (hloop : entry.command = .loop loop) (hneeds : loop.kind.needsTarget = false)
    (returnLimit : Nat) (run : Run α) :
    sequence.executeAt position returnLimit run =
      (.ok false, loop.kind.restoreDeclared (run.visit position entry.id)) := by
  rw [executeAt, hentry]
  simp only [hloop, hneeds]
  rfl

theorem executeAt_unresolved (hentry : sequence.entryAt? position = some entry)
    (hloop : entry.command = .loop loop) (hneeds : loop.kind.needsTarget = true)
    (htarget : sequence.targetPosition? position loop = none) (returnLimit : Nat) (run : Run α) :
    sequence.executeAt position returnLimit run =
      (.error (.unresolvedTarget entry.id), run.visit position entry.id) := by
  rw [executeAt, hentry]
  simp only [hloop, hneeds, htarget]
  rfl

theorem executeAt_rounds {declared : Nat} (hentry : sequence.entryAt? position = some entry)
    (hloop : entry.command = .loop loop) (hneeds : loop.kind.needsTarget = true)
    (htarget : sequence.targetPosition? position loop = some declared) (returnLimit : Nat)
    (run : Run α) :
    sequence.executeAt position returnLimit run =
      loop.kind.rounds
        (inOrder (effectiveStart declared returnLimit)
          (position - effectiveStart declared returnLimit)
          fun inner _ _ => sequence.executeAt inner (effectiveStart declared returnLimit))
        (loop.kind.begin (run.visit position entry.id)) (run.visit position entry.id) := by
  rw [executeAt, hentry]
  simp only [hloop, hneeds, htarget]
  rfl

end

/-- What a relation between a run and its outcome has to satisfy to hold of carrying out the
commands of a sequence. -/
structure Respects (sequence : Sequence α) (holds : Run α → Outcome α → Prop) : Prop where
  skip : ∀ run, holds run (.ok false, run)
  seq : ∀ {run mid outcome}, holds run (.ok false, mid) → holds mid outcome → holds run outcome
  single : ∀ {position entry}, sequence.entryAt? position = some entry →
    entry.command.loop? = none →
    ∀ run, holds run (performSingle entry.command (run.visit position entry.id))
  unresolved : ∀ {position entry loop}, sequence.entryAt? position = some entry →
    entry.command = .loop loop → loop.kind.needsTarget = true →
    sequence.targetPosition? position loop = none →
    ∀ run, holds run (.error (.unresolvedTarget entry.id), run.visit position entry.id)
  reset : ∀ {position entry loop}, sequence.entryAt? position = some entry →
    entry.command = .loop loop →
    ∀ run, holds run (.ok false, loop.kind.restoreDeclared (run.visit position entry.id))
  rounds : ∀ {position entry loop}, sequence.entryAt? position = some entry →
    entry.command = .loop loop →
    ∀ body, (∀ run, holds run (body run)) →
    ∀ run, holds run (loop.kind.rounds body (loop.kind.begin (run.visit position entry.id))
      (run.visit position entry.id))

variable {sequence : Sequence α} {holds : Run α → Outcome α → Prop}

theorem Respects.inOrder (hrespects : sequence.Respects holds) (start count : Nat)
    (step : (position : Nat) → start ≤ position → position < start + count → Run α → Outcome α)
    (hstep : ∀ position above below run, holds run (step position above below run))
    (run : Run α) : holds run (inOrder start count step run) :=
  inOrder_rule hrespects.skip hrespects.seq start count step hstep run

/-- **One command.** The recursion goes to smaller positions only, so a relation that is respected
holds of carrying out any command, with the commands that its loop repeats. -/
theorem Respects.executeAt (hrespects : sequence.Respects holds) (position returnLimit : Nat)
    (run : Run α) : holds run (sequence.executeAt position returnLimit run) := by
  induction position using Nat.strongRecOn generalizing returnLimit run with
  | _ position ih =>
    cases sequence.commandAt position with
    | absent hentry =>
      rw [executeAt_absent hentry]
      exact hrespects.skip run
    | single hentry hsingle =>
      rw [executeAt_single hentry hsingle]
      exact hrespects.single hentry hsingle run
    | reset hentry hloop hneeds =>
      rw [executeAt_reset hentry hloop hneeds]
      exact hrespects.reset hentry hloop run
    | unresolved hentry hloop hneeds htarget =>
      rw [executeAt_unresolved hentry hloop hneeds htarget]
      exact hrespects.unresolved hentry hloop hneeds htarget run
    | rounds hentry hloop hneeds htarget =>
      rw [executeAt_rounds hentry hloop hneeds htarget]
      refine hrespects.rounds hentry hloop _ (fun run => ?_) run
      refine hrespects.inOrder _ _ _ (fun inner above below run => ?_) run
      exact ih inner (by omega) _ run

theorem Respects.executeRange (hrespects : sequence.Respects holds)
    (start finish returnLimit : Nat) (run : Run α) :
    holds run (sequence.executeRange start finish returnLimit run) :=
  hrespects.inOrder _ _ _ (fun position _ _ run => hrespects.executeAt position returnLimit run) run

/-- **The whole sequence.** -/
theorem Respects.execute (hrespects : sequence.Respects holds) (run : Run α) :
    holds run (sequence.execute run) :=
  hrespects.executeRange 0 sequence.length 0 run

end Sequence

end LabelPlacement
