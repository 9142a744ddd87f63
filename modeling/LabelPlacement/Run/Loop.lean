import LabelPlacement.Command.Basic
import LabelPlacement.Run.Context
/-!
How a loop changes the state of a run between its rounds.

Each kind of loop has a state of its own, made when the loop begins and given up when it ends.
Before every round the loop is re-entered: it makes its next change, or finds that there is none
left.  `LoopKind.remaining` counts the changes that are still possible and bounds the rounds; when
the loop ends, the run gets back what the loop had changed.
-/

namespace LabelPlacement

variable {α : Type}

structure RelaxationState (α : Type) where
  previous : Relaxations α
  applied : Bool

structure StepState (ι : Type) where
  entry : ι
  step : Nat

structure HideState where
  pending : List HideAttempt
  hidden : List Element

def Relaxation.applyTo (relaxation : Relaxation α) (relaxations : Relaxations α) : Relaxations α :=
  match relaxation with
  | .offset => { relaxations with offset := true }
  | .overhang amount => { relaxations with overhang := some amount }
  | .overline => { relaxations with overline := true }
  | .overregion => { relaxations with overregion := true }
  | .bump => { relaxations with bump := true }

namespace HideAttempt

/-- Hides elements one after the other until one is missing.  Gives whether all were there, which of
them had been visible, and the request. -/
def hideAll (request : Request α) : List Element → Bool × List Element × Request α
  | [] => (true, [], request)
  | target :: rest =>
    match request.hide target with
    | (.missing, _) => (false, [], request)
    | (outcome, changed) =>
      let (complete, newly, final) := hideAll changed rest
      (complete, if outcome = .hidden then target :: newly else newly, final)

/-- Makes the first of several attempts that finds all its elements and leaves something to be seen.
Gives whether there was one, the state that follows, and the request. -/
def firstUsable (request : Request α) : List HideAttempt → Bool × HideState × Request α
  | [] => (false, { pending := [], hidden := [] }, request)
  | attempt :: rest =>
    let (complete, newly, changed) := hideAll request attempt.targets
    if complete && changed.hasVisibleContent then
      (true, { pending := rest, hidden := newly }, changed)
    else firstUsable (newly.foldl Request.restore changed) rest

theorem length_pending_firstUsable (request : Request α) (attempts : List HideAttempt)
    (found : (firstUsable request attempts).1 = true) :
    (firstUsable request attempts).2.1.pending.length < attempts.length := by
  induction attempts generalizing request with
  | nil => simp [firstUsable] at found
  | cons attempt rest induction =>
    simp only [firstUsable] at found ⊢
    split
    · simp
    · rename_i unusable
      rw [if_neg unusable] at found
      exact Nat.lt_succ_of_lt (induction _ found)

end HideAttempt

namespace LoopKind

@[reducible] def State : LoopKind α → Type
  | .relax _ => RelaxationState α
  | .bufferSize .. => StepState α
  | .fontSize .. => StepState α
  | .stack .. => StepState Nat
  | .hide _ => HideState

structure Reentry (kind : LoopKind α) where
  again : Bool
  state : kind.State
  run : Run α

def begin : (kind : LoopKind α) → Run α → kind.State
  | .relax _, run => { previous := run.relaxations, applied := false }
  | .bufferSize buffer _ _, run => { entry := run.request.buffer buffer, step := 0 }
  | .fontSize .., run => { entry := run.request.working.fontSize, step := 0 }
  | .stack .., run => { entry := run.request.working.stackLines, step := 0 }
  | .hide attempts, _ => { pending := attempts, hidden := [] }

def remaining : (kind : LoopKind α) → kind.State → Nat
  | .relax _, state => if state.applied then 0 else 1
  | .bufferSize _ steps action, state | .fontSize steps _ action, state =>
    (if action = .loopAgain then 1 else steps) - state.step
  | .stack lines action, state => (if action = .loopAgain then 1 else lines - 1) - state.step
  | .hide _, state => state.pending.length

section
variable [Scalar α]

def reducedBuffer (entry : α) (steps step : Nat) : α :=
  Scalar.larger (entry * (1 - Scalar.ofNat step / Scalar.ofNat steps)) 0

/-- The font size after some reductions by a percentage of the size at the beginning. -/
def reducedFontSize (entry percent : α) (step : Nat) : α :=
  entry * (1 - Scalar.ofNat step * percent / 100)

/-- Re-enters a loop: makes its next change if there is one left. -/
def reenter : (kind : LoopKind α) → kind.State → Run α → kind.Reentry
  | .relax relaxation, state, run =>
    if state.applied then { again := false, state, run }
    else
      { again := true, state := { state with applied := true }
        run := { run with relaxations := relaxation.applyTo run.relaxations } }
  | .bufferSize buffer steps action, state, run =>
    let next := state.step + 1
    if action = .loopAgain then
      if state.step = 0 then { again := true, state := { state with step := 1 }, run }
      else { again := false, state, run }
    else if steps ≤ state.step then { again := false, state, run }
    else
      { again := true, state := { state with step := next }
        run := run.mapRequest (·.setBuffer buffer (reducedBuffer state.entry steps next)) }
  | .fontSize steps percent action, state, run =>
    let next := state.step + 1
    let size := reducedFontSize state.entry percent next
    if action = .loopAgain then
      if state.step = 0 then { again := true, state := { state with step := 1 }, run }
      else { again := false, state, run }
    else if steps ≤ state.step ∨ size ≤ 0 ∨ size < run.workspace.options.minFontSize then
      { again := false, state, run }
    else
      { again := true, state := { state with step := next }
        run := run.mapRequest (·.setFontSize size) }
  | .stack lines action, state, run =>
    if action = .loopAgain then
      if state.step = 0 then { again := true, state := { state with step := 1 }, run }
      else { again := false, state, run }
    else if lines < state.step + 2 then { again := false, state, run }
    else
      match run.request.stack? (state.step + 2) with
      | none => { again := false, state, run }
      | some request =>
        { again := true, state := { state with step := state.step + 1 }
          run := { run with request } }
  | .hide _, state, run =>
    let (again, state, request) :=
      HideAttempt.firstUsable (state.hidden.foldl Request.restore run.request) state.pending
    { again, state, run := { run with request } }

theorem remaining_reenter_lt (kind : LoopKind α) (state : kind.State) (run : Run α)
    (again : (kind.reenter state run).again = true) :
    kind.remaining (kind.reenter state run).state < kind.remaining state := by
  match kind, state with
  | .relax relaxation, state =>
    by_cases applied : state.applied <;> simp_all [reenter, remaining]
  | .bufferSize buffer steps action, state =>
    by_cases once : action = .loopAgain
    · by_cases first : state.step = 0 <;> simp_all [reenter, remaining]
    · by_cases done : steps ≤ state.step
      · simp_all [reenter]
      · simp only [reenter, remaining, once, done, if_false]
        omega
  | .fontSize steps percent action, state =>
    by_cases once : action = .loopAgain
    · by_cases first : state.step = 0 <;> simp_all [reenter, remaining]
    · by_cases done : steps ≤ state.step ∨
          reducedFontSize state.entry percent (state.step + 1) ≤ 0 ∨
          reducedFontSize state.entry percent (state.step + 1) <
            run.workspace.options.minFontSize
      · simp [reenter, once, done] at again
      · simp only [reenter, remaining, once, done, if_false]
        omega
  | .stack lines action, state =>
    by_cases once : action = .loopAgain
    · by_cases first : state.step = 0 <;> simp_all [reenter, remaining]
    · by_cases done : lines < state.step + 2
      · simp [reenter, once, done] at again
      · cases stacked : run.request.stack? (state.step + 2) with
        | none => simp [reenter, once, done, stacked] at again
        | some request =>
          simp only [reenter, remaining, once, done, stacked, if_false]
          omega
  | .hide attempts, state =>
    exact HideAttempt.length_pending_firstUsable _ _ again

end

def finish : (kind : LoopKind α) → kind.State → Run α → Run α
  | .relax _, state, run => { run with relaxations := state.previous }
  | .bufferSize buffer _ _, state, run => run.mapRequest (·.setBuffer buffer state.entry)
  | .fontSize .., state, run => run.mapRequest (·.setFontSize state.entry)
  | .stack .., state, run =>
    run.mapRequest fun request =>
      if state.entry ≤ 1 then request.unstack
      else (request.stack? state.entry).getD request.unstack
  | .hide _, state, run => run.mapRequest (state.hidden.foldl Request.restore ·)

/-- Returns to the declared style as far as the loop is about it. -/
def restoreDeclared : LoopKind α → Run α → Run α
  | .bufferSize buffer _ _, run =>
    run.mapRequest fun request => request.setBuffer buffer (request.style.buffers.get buffer)
  | .fontSize .., run =>
    run.mapRequest fun request => request.setFontSize request.style.fontSize
  | .stack .., run => run.mapRequest Request.unstack
  | .relax _, run | .hide _, run => run

end LoopKind

end LabelPlacement
