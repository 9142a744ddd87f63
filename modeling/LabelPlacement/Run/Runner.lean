import LabelPlacement.Placement.Area
import LabelPlacement.Placement.Leader
import LabelPlacement.Run.Loop
import LabelPlacement.Sequence.Basic
/-!
Carrying out sequences.

A sequence is carried out command by command until one settles the label.  A loop repeats the
commands between its target and itself; within these, no loop goes back further than the target, so
the positions carried out by a loop all lie in front of it.  This bounds the recursion: a command
only ever leads to commands at smaller positions.
-/

namespace LabelPlacement

variable {α : Type}

/-- What carrying out commands gives: whether the label is settled or an error, and the run
afterwards. -/
abbrev Outcome (α : Type) := Except (LabelingError α) Bool × Run α

/-- The position at which the rounds of a loop begin: its target, or the return limit of the loops
around it if that comes later. -/
def effectiveStart (declared returnLimit : Nat) : Nat := max declared returnLimit

/-- Carries out `count` steps from a position on until one settles the label or fails. -/
def inOrder (start : Nat) (count : Nat)
    (step : (position : Nat) → start ≤ position → position < start + count → Run α → Outcome α)
    (run : Run α) : Outcome α :=
  match count with
  | 0 => (.ok false, run)
  | count + 1 =>
    match step start (Nat.le_refl _) (by omega) run with
    | (.ok false, run) =>
      inOrder (start + 1) count
        (fun position above below => step position (by omega) (by omega)) run
    | settled => settled

/-- The rounds of a loop: it is re-entered, the body is carried out, and so on until a round settles
the label or fails, or no change is left.  However it ends, the loop gives back what it changed. -/
def LoopKind.rounds [Scalar α] (kind : LoopKind α) (body : Run α → Outcome α)
    (state : kind.State) (run : Run α) : Outcome α :=
  if _again : (kind.reenter state run).again then
    match body (kind.reenter state run).run with
    | (.ok false, run') => kind.rounds body (kind.reenter state run).state run'
    | (outcome, run') => (outcome, kind.finish (kind.reenter state run).state run')
  else (.ok false, kind.finish (kind.reenter state run).state (kind.reenter state run).run)
termination_by kind.remaining state
decreasing_by exact kind.remaining_reenter_lt state run _again

namespace Sequence

def targetPosition? (sequence : Sequence α) (position : Nat) (loop : Loop α) : Option Nat :=
  match loop.target with
  | none => none
  | some target => (sequence.position? target).filter (· < position)

section
variable [Trigonometric α]

def performSingle (command : Command α) (run : Run α) : Outcome α :=
  match command with
  | .line placement => (placement.perform run).map .ok id
  | .point placement => placement.perform run
  | .area placement => (placement.perform run).map .ok id
  | .leader placement => (placement.perform run).map .ok id
  | .failure action => (.ok true, action.perform run)
  | .loop _ => (.ok false, run)

/-- Carries out the command at a position; loops around it allow no return before `returnLimit`. -/
def executeAt (sequence : Sequence α) (position returnLimit : Nat) (run : Run α) : Outcome α :=
  match sequence.entryAt? position with
  | none => (.ok false, run)
  | some entry =>
    let run := run.visit position entry.id
    match entry.command with
    | .loop loop =>
      if loop.kind.needsTarget then
        match sequence.targetPosition? position loop with
        | none => (.error (.unresolvedTarget entry.id), run)
        | some declared =>
          let start := effectiveStart declared returnLimit
          let body := inOrder start (position - start) fun inner _ _ =>
            sequence.executeAt inner start
          loop.kind.rounds body (loop.kind.begin run) run
      else (.ok false, loop.kind.restoreDeclared run)
    | command => performSingle command run
termination_by position

def executeRange (sequence : Sequence α) (start finish returnLimit : Nat) (run : Run α) :
    Outcome α :=
  inOrder start (min finish sequence.length - start)
    (fun position _ _ => sequence.executeAt position returnLimit) run

def execute (sequence : Sequence α) (run : Run α) : Outcome α :=
  sequence.executeRange 0 sequence.length 0 run

end

end Sequence

end LabelPlacement
