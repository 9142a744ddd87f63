import LabelPlacement.Command.Basic
/-!
Making commands and changing their parameters.

Counts of steps and lines have to be positive and to fit into 32 bits, percentages have to lie
strictly between nothing and everything, lengths have to be positive and finite.  A change that is
refused leaves the command as it was.
-/

namespace LabelPlacement

variable {α : Type} [Scalar α]

def Scalar.ofInt (value : Int) : α :=
  if value < 0 then -Scalar.ofNat value.natAbs else Scalar.ofNat value.natAbs

def checkCount (parameter : String) (value : Int) : Except (LabelingError α) Nat :=
  if 0 < value ∧ value < 0x100000000 then .ok value.toNat
  else .error (.notPositive parameter (Scalar.ofInt value))

/-- A percentage between zero and one hundred, both excluded. -/
def checkPercent (value : α) : Except (LabelingError α) α :=
  if 0 < value ∧ value < 100 then .ok value
  else .error (.notPositive "reduction_percent" value)

def checkOverhang (value : α) : Except (LabelingError α) α :=
  if 0 < value ∧ Scalar.isFinite value then .ok value
  else .error (.overhangNotPositive value)

def checkLength (value : α) : Except (LabelingError α) α :=
  if value ≤ 0 ∨ ¬ Scalar.isFinite value then .error (.notPositive "max_length" value)
  else .ok value

def checkAttempts (attempts : List HideAttempt) : Except (LabelingError α) (List HideAttempt) :=
  if attempts.isEmpty then .error .noHideAttempts else .ok attempts

def readAttempts (text : String) : Except (LabelingError α) (List HideAttempt) :=
  (HideText.parse text).mapError .hideText

namespace Command

def untargeted (kind : LoopKind α) : Command α := .loop { kind, target := none }

def relax (relaxation : Relaxation α) : Command α := untargeted (.relax relaxation)

def overhang (amount : α) : Except (LabelingError α) (Command α) := do
  return relax (.overhang (← checkOverhang amount))

def bufferSize (buffer : BufferKind) (steps : Int) (action : LoopAction) :
    Except (LabelingError α) (Command α) := do
  return untargeted (.bufferSize buffer (← checkCount "num_buffer_steps" steps) action)

def fontSize (steps : Int) (percent : α) (action : LoopAction) :
    Except (LabelingError α) (Command α) := do
  let steps ← checkCount "num_font_steps" steps
  return untargeted (.fontSize steps (← checkPercent percent) action)

def stack (lines : Int) (action : LoopAction) : Except (LabelingError α) (Command α) := do
  return untargeted (.stack (← checkCount "max_number_of_lines" lines) action)

def hide (attempts : List HideAttempt) : Except (LabelingError α) (Command α) := do
  return untargeted (.hide (← checkAttempts attempts))

def hideText (text : String) : Except (LabelingError α) (Command α) := do
  hide (← readAttempts text)

def leaderLine (timing : LeaderTiming) (maxLength : Option α) :
    Except (LabelingError α) (Command α) :=
  match maxLength with
  | none => .ok (.leader { timing, maxLength := none })
  | some length => do return .leader { timing, maxLength := some (← checkLength length) }

end Command

inductive Setting (α : Type)
  | steps (value : Int)
  | percent (value : α)
  | lines (value : Int)
  | amount (value : α)
  | hideText (text : String)
  | target (target : Option Nat)

namespace Setting

/-- The loop kind with a parameter changed: nothing if it has no such parameter, an error if the
value is refused. -/
def changeKind? (setting : Setting α) (kind : LoopKind α) :
    Option (Except (LabelingError α) (LoopKind α)) :=
  match setting, kind with
  | .steps value, .bufferSize buffer _ action =>
    some do return .bufferSize buffer (← checkCount "num_buffer_steps" value) action
  | .steps value, .fontSize _ share action =>
    some do return .fontSize (← checkCount "num_font_steps" value) share action
  | .percent value, .fontSize count _ action =>
    some do return .fontSize count (← checkPercent value) action
  | .lines value, .stack _ action =>
    some do return .stack (← checkCount "max_number_of_lines" value) action
  | .amount value, .relax (.overhang _) =>
    some do return .relax (.overhang (← checkOverhang value))
  | .hideText text, .hide _ => some do return .hide (← readAttempts text)
  | _, _ => none

/-- The command with a parameter changed: nothing if it has no such parameter, an error if the value
is refused.  A loop target is taken as it is. -/
def change? (setting : Setting α) (command : Command α) :
    Option (Except (LabelingError α) (Command α)) :=
  match setting, command with
  | .target goal, .loop loop => some (.ok (.loop { loop with target := goal }))
  | setting, .loop loop =>
    (setting.changeKind? loop.kind).map fun changed => do
      return .loop { loop with kind := ← changed }
  | _, _ => none

end Setting

end LabelPlacement
