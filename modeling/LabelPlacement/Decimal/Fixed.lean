import LabelPlacement.Decimal.Binary
/-!
Decimal texts with a fixed number of places.

The magnitude is rounded to the grid of the last place in natural-number arithmetic, an exact tie
going to the even neighbour.  Trailing zeros stay, and so does the minus sign of a number that
rounds to zero.
-/

namespace LabelPlacement.Decimal

/-- The natural number nearest to `numerator / denominator`, an exact tie going to the even one. -/
def roundToEven (numerator denominator : Nat) : Nat :=
  let whole := numerator / denominator
  let rest := numerator % denominator
  if 2 * rest < denominator then whole
  else if denominator < 2 * rest then whole + 1
  else if whole % 2 = 0 then whole else whole + 1

def digitsOf (value : Nat) : List Char := Nat.toDigits 10 value

def lastDigits (places value : Nat) : List Char :=
  let digits := digitsOf (value % Nat.pow 10 places)
  List.replicate (places - digits.length) '0' ++ digits

def Binary.renderPlaces (places : Nat) (value : Binary) : String :=
  let unit := Nat.pow 10 places
  let scaled := roundToEven (value.numerator * unit) value.denominator
  let fraction := if places = 0 then [] else '.' :: lastDigits places (scaled % unit)
  let body := digitsOf (scaled / unit) ++ fraction
  String.ofList (if value.negative then '-' :: body else body)

def renderPlaces (places : Nat) (value : Float) : String :=
  match Reading.ofFloat value with
  | .undefined => "NaN"
  | .infinite negative => if negative then "-inf" else "inf"
  | .finite exact => exact.renderPlaces places

end LabelPlacement.Decimal
