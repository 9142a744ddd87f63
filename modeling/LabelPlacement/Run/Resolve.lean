import LabelPlacement.Run.Context
/-!
Whether a label fits at a candidate, and how it can be bumped aside when it does not.
-/

namespace LabelPlacement

variable {α : Type}

section
variable [Scalar α]

def separation : α := 1e-6

def awayFrom (moving fixed : α) : α := if fixed ≤ moving then 1 else -1

/-- The shortest displacement along one axis that pushes a box away from another one it overlaps. -/
def minimumDisplacement? (moving fixed : Box α) : Option (Displacement α) :=
  let overlapX :=
    Scalar.smaller moving.upper.x fixed.upper.x - Scalar.larger moving.lower.x fixed.lower.x
  let overlapY :=
    Scalar.smaller moving.upper.y fixed.upper.y - Scalar.larger moving.lower.y fixed.lower.y
  if overlapX ≤ 0 ∨ overlapY ≤ 0 then none
  else if overlapX ≤ overlapY then
    some ⟨awayFrom moving.center.x fixed.center.x * (overlapX + separation), 0⟩
  else
    some ⟨0, awayFrom moving.center.y fixed.center.y * (overlapY + separation)⟩

end

variable [Trigonometric α]

/-- The candidate if nothing is in its way.  While labels may be bumped aside and a single placed
label is in the way, the candidate pushed away from that label, if it is free there. -/
def Run.resolve? (run : Run α) (candidate : Candidate α) : Option (Candidate α) :=
  match run.conflicts candidate.bounds with
  | [] => some candidate
  | [⟨.label _, bounds⟩] =>
    if run.relaxations.bump then
      match minimumDisplacement? (candidate.bounds.expanded (run.clearance .label)) bounds with
      | none => none
      | some displacement =>
        let moved := candidate.translated displacement
        if (run.conflicts moved.bounds).isEmpty then some moved else none
    else none
  | _ => none

end LabelPlacement
