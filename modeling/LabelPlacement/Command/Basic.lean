import LabelPlacement.Command.Placing
import LabelPlacement.Error
import LabelPlacement.Label.Request
/-!
Commands: the steps of a sequence that places one label.

A placing command tries positions.  A loop goes back to an earlier command, its target, and carries
out what lies between again under changed conditions: with a constraint relaxed, or with the label
reduced step by step.
-/

namespace LabelPlacement

inductive Relaxation (α : Type)
  | offset
  | overhang (amount : α)
  | overline
  | overregion
  | bump
  deriving BEq, DecidableEq

/-- What a reducing loop does: reduce step by step, go back once without a change, or return to the
declared style. -/
inductive LoopAction
  | reduce
  | loopAgain
  | reset
  deriving BEq, DecidableEq

inductive LoopKind (α : Type)
  | relax (relaxation : Relaxation α)
  | bufferSize (buffer : BufferKind) (steps : Nat) (action : LoopAction)
  | fontSize (steps : Nat) (percent : α) (action : LoopAction)
  | stack (lines : Nat) (action : LoopAction)
  | hide (attempts : List HideAttempt)
  deriving BEq, DecidableEq

structure Loop (α : Type) where
  kind : LoopKind α
  target : Option Nat
  deriving BEq, DecidableEq

inductive Command (α : Type)
  | line (placement : LinePlacement α)
  | point (placement : PointPlacement α)
  | area (placement : AreaPlacement α)
  | leader (placement : LeaderPlacement α)
  | failure (action : FailureAction)
  | loop (loop : Loop α)
  deriving BEq, DecidableEq

namespace LoopKind

variable {α : Type}

/-- Whether the loop only returns to the declared style, without going back. -/
def isReset : LoopKind α → Bool
  | bufferSize _ _ action | fontSize _ _ action | stack _ action => action == .reset
  | relax _ | hide _ => false

def needsTarget (kind : LoopKind α) : Bool := !kind.isReset

def returnsToTarget : LoopKind α → Bool
  | bufferSize _ _ action | fontSize _ _ action | stack _ action => action == .reduce
  | relax _ | hide _ => true

end LoopKind

namespace Command

variable {α : Type}

def loop? : Command α → Option (Loop α)
  | .loop found => some found
  | _ => none

def withTarget (target : Option Nat) : Command α → Command α
  | .loop found => .loop { found with target }
  | command => command

def isPlacing : Command α → Bool
  | line _ | point _ | area _ | leader _ => true
  | failure _ | loop _ => false

def name : Command α → String
  | line _ => "line_placement"
  | point _ => "point_placement"
  | area _ => "area_placement"
  | leader _ => "leader"
  | failure _ => "failure"
  | loop ⟨.relax .offset, _⟩ => "offset"
  | loop ⟨.relax (.overhang _), _⟩ => "overhang"
  | loop ⟨.relax .overline, _⟩ => "overline"
  | loop ⟨.relax .overregion, _⟩ => "overregion"
  | loop ⟨.relax .bump, _⟩ => "bump"
  | loop ⟨.bufferSize .., _⟩ => "buffer_size"
  | loop ⟨.fontSize .., _⟩ => "font_size"
  | loop ⟨.stack .., _⟩ => "stack"
  | loop ⟨.hide _, _⟩ => "hide"

end Command

end LabelPlacement
