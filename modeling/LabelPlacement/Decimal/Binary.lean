/-!
The exact value of a binary floating-point number.

A finite number is a sign, a natural mantissa and a power of two.  All decimal texts are computed
from this form in natural-number arithmetic, so no digit is lost on the way.
-/

namespace LabelPlacement.Decimal

/-- The number `mantissa * 2 ^ exponent`, negated when `negative` holds. -/
structure Binary where
  negative : Bool
  mantissa : Nat
  exponent : Int
  deriving DecidableEq

inductive Reading
  | undefined
  | infinite (negative : Bool)
  | finite (value : Binary)
  deriving DecidableEq

/-- The reading of the 64 bits `sign (1), exponent (11), fraction (52)`. -/
def Reading.ofBits (bits : Nat) : Reading :=
  let negative := bits / 0x8000000000000000 % 2 == 1
  let field : Nat := bits / 0x10000000000000 % 2048
  let fraction : Nat := bits % 0x10000000000000
  if field = 2047 then
    if fraction = 0 then .infinite negative else .undefined
  else if field = 0 then
    .finite { negative, mantissa := fraction, exponent := -1074 }
  else
    .finite { negative, mantissa := 0x10000000000000 + fraction, exponent := (field : Int) - 1075 }

def Reading.ofFloat (value : Float) : Reading :=
  .ofBits value.toBits.toNat

def Binary.numerator (value : Binary) : Nat :=
  value.mantissa * Nat.pow 2 value.exponent.toNat

def Binary.denominator (value : Binary) : Nat :=
  Nat.pow 2 (-value.exponent).toNat

end LabelPlacement.Decimal
