import LabelPlacement.Decimal.Shortest
import LabelPlacement.Feature.Symbol
import LabelPlacement.Hide.Grammar
/-!
What can go wrong while commands are made, put into a sequence, or carried out.
-/

namespace LabelPlacement

inductive LabelingError (α : Type)
  | noPreviousCommand
  | incompatibleTarget (target : Nat)
  | notALoop (command : Nat)
  | commandNotFound (command : Nat)
  | unresolvedTarget (command : Nat)
  | notPositive (parameter : String) (value : α)
  | overhangNotPositive (value : α)
  | hideText (error : HideTextError)
  | noHideAttempts
  | outline (error : OutlineError)

def LabelingError.message : LabelingError Float → String
  | .noPreviousCommand => "no previous command can serve as loop target"
  | .incompatibleTarget target =>
    "loop target " ++ toString target ++ " is not a compatible placement command"
  | .notALoop command => "command " ++ toString command ++ " is not a loop command"
  | .commandNotFound command => "command with id " ++ toString command ++ " not found"
  | .unresolvedTarget command =>
    "loop command " ++ toString command ++ " has no resolved loop target"
  | .notPositive parameter value =>
    parameter ++ " must be positive, got " ++ Decimal.renderShortest value
  | .overhangNotPositive value =>
    "overhang amount must be greater than zero, got " ++ Decimal.renderShortest value
  | .hideText error =>
    "hide attempt parse error at offset " ++ toString error.offset ++ ": " ++ error.fault.message
  | .noHideAttempts => "hide command initialized without hide attempts"
  | .outline error => error.message

end LabelPlacement
