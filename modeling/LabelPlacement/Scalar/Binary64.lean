import LabelPlacement.Scalar.Basic
import LabelPlacement.Decimal.Binary
/-!
Binary floating point as a scalar.

The remainder of a division is computed exactly on mantissas: both numbers are brought to the
smaller of their two exponents, and what is left over there is a floating-point number again.
The order used for sorting ranks all bit patterns, negative zero just below zero.
-/

namespace LabelPlacement

open Decimal

/-- The rank of a number among all bit patterns: by magnitude, negative ones reversed. -/
def floatRank (value : Float) : Int :=
  let bits := value.toBits.toNat
  if bits < 0x8000000000000000 then bits
  else -((bits - 0x8000000000000000 : Nat) : Int) - 1

/-- What is left of `left` once `right` has been taken away as often as it fits. -/
def Decimal.Binary.remainder (left right : Binary) : Binary :=
  let exponent := min left.exponent right.exponent
  let scaledLeft := left.mantissa * Nat.pow 2 (left.exponent - exponent).toNat
  let scaledRight := right.mantissa * Nat.pow 2 (right.exponent - exponent).toNat
  { negative := left.negative, mantissa := scaledLeft % scaledRight, exponent }

def Decimal.Binary.toFloat (value : Binary) : Float :=
  let magnitude := (Float.ofNat value.mantissa).scaleB value.exponent
  if value.negative then -magnitude else magnitude

/-- The remainder of a division that truncates; undefined for a zero divisor or an infinite
dividend. -/
def floatRemainder (left right : Float) : Float :=
  match Reading.ofFloat left, Reading.ofFloat right with
  | .finite exactLeft, .finite exactRight =>
    if exactRight.mantissa = 0 then 0.0 / 0.0 else (exactLeft.remainder exactRight).toFloat
  | .finite _, .infinite _ => left
  | _, _ => 0.0 / 0.0

instance : Trigonometric Float where
  compare left right := compare (floatRank left) (floatRank right)
  ofNat := Float.ofNat
  infinity := 1.0 / 0.0
  isFinite := Float.isFinite
  wholePart value := value.toUInt64.toNat
  decideLt := inferInstance
  decideLe := inferInstance
  sqrt := Float.sqrt
  sin := Float.sin
  cos := Float.cos
  arctan := Float.atan2
  remainder := floatRemainder

end LabelPlacement
