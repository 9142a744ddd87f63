/-!
The numbers that digits write.
-/

namespace LabelPlacement.Text

def decimalValue (digits : List Char) : Nat :=
  digits.foldl (fun number digit => 10 * number + (digit.toNat - 48)) 0

def hexDigit? (digit : Char) : Option Nat :=
  if digit.isDigit then some (digit.toNat - 48)
  else if 'a' ≤ digit ∧ digit ≤ 'f' then some (digit.toNat - 87)
  else if 'A' ≤ digit ∧ digit ≤ 'F' then some (digit.toNat - 55)
  else none

def hexNumber? (count : Nat) (text : List Char) : Option (Nat × List Char) := do
  let digits := text.take count
  if digits.length < count then none
  let values ← digits.mapM hexDigit?
  return (values.foldl (fun number digit => 16 * number + digit) 0, text.drop count)

end LabelPlacement.Text
