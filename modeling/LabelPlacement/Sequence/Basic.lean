import LabelPlacement.Command.Build
import LabelPlacement.Command.Target
/-!
Sequences of commands.

Every command of a sequence has a number of its own, given out in increasing order and never used
again.  Loops refer to their targets by number.  A command that is refused leaves the sequence as it
was.
-/

namespace LabelPlacement

structure Entry (α : Type) where
  id : Nat
  command : Command α
  deriving BEq, DecidableEq

structure Sequence (α : Type) where
  entries : List (Entry α)
  nextId : Nat
  deriving BEq, DecidableEq

namespace Sequence

variable {α : Type}

def empty : Sequence α := { entries := [], nextId := 1 }

def length (sequence : Sequence α) : Nat := sequence.entries.length

def entryAt? (sequence : Sequence α) (position : Nat) : Option (Entry α) :=
  sequence.entries[position]?

def position? (sequence : Sequence α) (id : Nat) : Option Nat :=
  sequence.entries.findIdx? (·.id == id)

def find? (sequence : Sequence α) (id : Nat) : Option (Command α) :=
  (sequence.entries.find? (·.id == id)).map (·.command)

/-- The entries with the command of a number replaced; of several, the first one. -/
def replaceIn (id : Nat) (command : Command α) : List (Entry α) → List (Entry α)
  | [] => []
  | entry :: rest =>
    if entry.id = id then { entry with command } :: rest else entry :: replaceIn id command rest

def replace (sequence : Sequence α) (id : Nat) (command : Command α) : Sequence α :=
  { sequence with entries := replaceIn id command sequence.entries }

def push (sequence : Sequence α) (command : Command α) : Sequence α :=
  { entries := sequence.entries ++ [{ id := sequence.nextId, command }]
    nextId := sequence.nextId + 1 }

/-- The number of the last command that a loop may go back to. -/
def defaultTarget? (sequence : Sequence α) (kind : LoopKind α) : Option Nat :=
  (sequence.entries.reverse.find? (kind.accepts ·.command)).map (·.id)

/-- The target of a new loop: the given one, if it is there and suits the loop, or else the default
target of a loop that needs one. -/
def resolveTarget (sequence : Sequence α) (kind : LoopKind α) (target : Option Nat) :
    Except (LabelingError α) (Option Nat) :=
  match target with
  | some id =>
    match sequence.find? id with
    | none => .error .noPreviousCommand
    | some command =>
      if kind.accepts command then .ok (some id) else .error (.incompatibleTarget id)
  | none =>
    if kind.needsTarget then
      match sequence.defaultTarget? kind with
      | none => .error .noPreviousCommand
      | some id => .ok (some id)
    else .ok none

def addLoop (sequence : Sequence α) (command : Command α) (target : Option Nat) :
    Except (LabelingError α) (Sequence α) :=
  match command with
  | .loop loop => do
    let target ← sequence.resolveTarget loop.kind target
    return sequence.push (.loop { loop with target })
  | _ => .error (.notALoop sequence.nextId)

def add (sequence : Sequence α) (command : Command α) : Except (LabelingError α) (Sequence α) :=
  match command with
  | .loop loop => sequence.addLoop command loop.target
  | _ => .ok (sequence.push command)

def retarget (sequence : Sequence α) (loopId target : Nat) :
    Except (LabelingError α) (Sequence α) :=
  match sequence.position? loopId with
  | none => .error (.commandNotFound loopId)
  | some loopPosition =>
    match (sequence.entries.take loopPosition).find? (·.id == target), sequence.find? loopId with
    | some candidate, some (.loop loop) =>
      if loop.kind.accepts candidate.command then
        .ok (sequence.replace loopId (.loop { loop with target := some target }))
      else .error (.incompatibleTarget target)
    | some _, _ => .error (.notALoop loopId)
    | none, _ => .error .noPreviousCommand

/-- Removes the command of a number; loops that refer to it keep their target. -/
def remove (sequence : Sequence α) (id : Nat) : Option (Command α) × Sequence α :=
  (sequence.find? id, { sequence with entries := sequence.entries.eraseP (·.id == id) })

def set? (sequence : Sequence α) [Scalar α] (id : Nat) (setting : Setting α) :
    Option (Option (Except (LabelingError α) (Sequence α))) :=
  (sequence.find? id).map fun command =>
    (setting.change? command).map fun changed => return sequence.replace id (← changed)

/-- Copies the commands one by one, keeping all numbers; the copy gets the position and the command.
The first failure ends it. -/
def copyFrom (copy : Nat → Command α → Except (LabelingError α) (Command α)) :
    (position : Nat) → List (Entry α) → Except (LabelingError α) (List (Entry α))
  | _, [] => .ok []
  | position, entry :: rest => do
    let command ← copy position entry.command
    return { entry with command } :: (← copyFrom copy (position + 1) rest)

def copyWith (sequence : Sequence α)
    (copy : Nat → Command α → Except (LabelingError α) (Command α)) :
    Except (LabelingError α) (Sequence α) := do
  return { sequence with entries := ← copyFrom copy 0 sequence.entries }

end Sequence

end LabelPlacement
