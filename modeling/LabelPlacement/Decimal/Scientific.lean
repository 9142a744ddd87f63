import LabelPlacement.Text.Digit
/-!
Reading decimal numbers.
-/

namespace LabelPlacement.Decimal

/-- The floating-point number nearest to `mantissa * 10 ^ exponent`.  Numbers far beyond the range
of floating point are told by their number of digits alone. -/
def nearestFloat (mantissa : Nat) (exponent : Int) : Float :=
  let lead := ((Nat.toDigits 10 mantissa).length : Int) + exponent
  if mantissa = 0 ∨ lead < -400 then 0.0
  else if 400 < lead then 1.0 / 0.0
  else if 0 ≤ exponent then Float.ofScientific mantissa false exponent.toNat
  else Float.ofScientific mantissa true (-exponent).toNat

def ofDigits (negative : Bool) (whole fraction : List Char) (exponent : Int) : Float :=
  let mantissa := Text.decimalValue (whole ++ fraction)
  let magnitude := nearestFloat mantissa (exponent - fraction.length)
  if negative then -magnitude else magnitude

end LabelPlacement.Decimal
