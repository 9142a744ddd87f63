import LabelPlacement.Run.Resolve
/-!
Placing a label at the first of several candidates where it fits.
-/

namespace LabelPlacement

variable {α : Type} [Trigonometric α]

/-- The final place for a candidate: free, and suitable both before and after it has been bumped
aside. -/
def Run.settle? (run : Run α) (suits : Candidate α → Bool) (candidate : Candidate α) :
    Option (Candidate α) :=
  if suits candidate then
    (run.resolve? candidate).filter fun resolved => resolved == candidate || suits resolved
  else none

/-- Places the label at the first candidate with a final place, and tells whether there was one.
The first candidate of all is noted as the ideal one. -/
def Run.placeFirst (run : Run α) (suits : Candidate α → Bool) (candidates : List (Candidate α)) :
    Bool × Run α :=
  let noted := candidates.head?.elim run run.noteIdeal
  match candidates.findSome? (run.settle? suits) with
  | some resolved => (true, noted.place resolved .placed none)
  | none => (false, noted)

end LabelPlacement
