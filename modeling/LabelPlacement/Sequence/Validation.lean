import LabelPlacement.Command.Finding
import LabelPlacement.Sequence.Basic
/-!
Findings about a whole sequence: those about its commands, about a failure command in front of other
commands, and about loop targets that are missing or do not lie in front of their loop.
-/

namespace LabelPlacement.Sequence

variable {α : Type} [Scalar α]

def targetConcerns (sequence : Sequence α) (position : Nat) (loop : Loop α) : List Concern :=
  if loop.kind.needsTarget then
    match loop.target with
    | none => [.noTarget]
    | some target =>
      match sequence.position? target with
      | none => [.targetGone target]
      | some found => if position ≤ found then [.targetNotBefore target] else []
  else []

def concernsAt (sequence : Sequence α) (kind : FeatureKind) (position : Nat)
    (command : Command α) : List Concern :=
  let misplaced :=
    match command with
    | .failure _ => if position + 1 = sequence.length then [] else [.failureNotLast]
    | _ => []
  let target :=
    match command with
    | .loop loop => sequence.targetConcerns position loop
    | _ => []
  command.concerns kind ++ misplaced ++ target

def findings (sequence : Sequence α) (kind : FeatureKind) : List Finding :=
  sequence.entries.zipIdx.flatMap fun (entry, position) =>
    (sequence.concernsAt kind position entry.command).map fun concern =>
      { command := some entry.id, tag := entry.command.tag, concern }

end LabelPlacement.Sequence
