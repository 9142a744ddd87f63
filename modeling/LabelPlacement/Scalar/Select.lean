import LabelPlacement.Scalar.Basic
/-!
Choosing from a list by a key.  Ties are broken by position: the largest key goes to the last
element that has it, the least key to the first.

A key that is computed may turn out undefined, as the difference of two infinite numbers is.
`Scalar.rank` puts it below every number, unless an operand was undefined to begin with.
-/

namespace LabelPlacement

/-- The rank of the result of a computation with the given operands.  An undefined result of defined
operands ranks below every number; an undefined operand that was given makes it rank above them. -/
def Scalar.rank {α : Type} [Scalar α] (operands : List α) (result : α) : Option α :=
  if result == result || operands.any (fun operand => operand != operand) then some result
  else none

variable {κ : Type} [Ord κ] {ι : Type}

def lastLargest? (key : ι → κ) : List ι → Option ι
  | [] => none
  | first :: rest =>
    some (rest.foldl
      (fun best next => if (compare (key best) (key next)).isGT then best else next) first)

def firstLeast? (key : ι → κ) : List ι → Option ι
  | [] => none
  | first :: rest =>
    some (rest.foldl
      (fun best next => if (compare (key best) (key next)).isGT then next else best) first)

/-- The list in increasing order of a key, equal keys in their given order. -/
def sortByKey (key : ι → κ) (elements : List ι) : List ι :=
  elements.mergeSort fun left right => (compare (key left) (key right)).isLE

end LabelPlacement
