import LabelPlacement.Decimal.Fixed
/-!
The shortest decimal text that reads back as the same number.

The numbers that round to a given value form an interval around it; its ends belong to it when the
mantissa is even.  On the grid of every power of ten the only candidates are the two neighbours of
the value, so the first grid, from coarse to fine, with a neighbour inside the interval gives the
fewest digits, and of two such neighbours the nearer one is taken, or the upper one when the value
lies halfway between them.
-/

namespace LabelPlacement.Decimal

namespace Shortest

/-- A value with the interval that rounds to it, all over one denominator. -/
structure Interval where
  low : Nat
  value : Nat
  high : Nat
  denominator : Nat
  closed : Bool

/-- The interval of a finite non-zero value.  Below a power of two the neighbours are twice as
dense, so the lower end is nearer there. -/
def Interval.ofBinary (value : Binary) : Interval :=
  let dense := value.mantissa = 0x10000000000000 ∧ -1074 < value.exponent
  let unit := Nat.pow 2 value.exponent.toNat
  { low := (4 * value.mantissa - if dense then 1 else 2) * unit
    value := 4 * value.mantissa * unit
    high := (4 * value.mantissa + 2) * unit
    denominator := 4 * value.denominator
    closed := value.mantissa % 2 == 0 }

structure Grid where
  count : Nat
  exponent : Int

def Grid.sides (point : Grid) (amount denominator : Nat) : Nat × Nat :=
  (point.count * Nat.pow 10 point.exponent.toNat * denominator,
    amount * Nat.pow 10 (-point.exponent).toNat)

def Interval.holds (interval : Interval) (point : Grid) : Bool :=
  let (lowPoint, low) := point.sides interval.low interval.denominator
  let (highPoint, high) := point.sides interval.high interval.denominator
  if interval.closed then decide (low ≤ lowPoint) && decide (highPoint ≤ high)
  else decide (low < lowPoint) && decide (highPoint < high)

/-- The point of the grid `10 ^ exponent` to be written for the value, if one reads back. -/
def Interval.onGrid (interval : Interval) (exponent : Int) : Option Grid :=
  let numerator := interval.value * Nat.pow 10 (-exponent).toNat
  let denominator := interval.denominator * Nat.pow 10 exponent.toNat
  let below : Grid := ⟨numerator / denominator, exponent⟩
  let above : Grid := ⟨numerator / denominator + 1, exponent⟩
  let rest := numerator % denominator
  match interval.holds below && below.count != 0, interval.holds above with
  | true, true => some (if 2 * rest < denominator then below else above)
  | true, false => some below
  | false, true => some above
  | false, false => none

def Interval.search (interval : Interval) : (grids : Nat) → (exponent : Int) → Option Grid
  | 0, _ => none
  | grids + 1, exponent =>
    match interval.onGrid exponent with
    | some point => some point
    | none => interval.search grids (exponent - 1)

/-- The shortest point of a finite non-zero value.  The coarsest grid lies above the value; twenty
grids below the value's first digit hold every number of seventeen digits. -/
def ofBinary (value : Binary) : Grid :=
  let interval := Interval.ofBinary value
  let wholeDigits := (digitsOf (interval.value / interval.denominator)).length
  let lead : Int :=
    if interval.denominator ≤ interval.value then wholeDigits
    else -((digitsOf (interval.denominator / interval.value)).length : Int) + 1
  (interval.search 24 lead).getD ⟨0, 0⟩

def Grid.render (point : Grid) : List Char :=
  if 0 ≤ point.exponent then
    digitsOf (point.count * Nat.pow 10 point.exponent.toNat)
  else
    let places := (-point.exponent).toNat
    let unit := Nat.pow 10 places
    digitsOf (point.count / unit) ++ '.' :: lastDigits places (point.count % unit)

end Shortest

/-- The fewest digits that read back as the same number, never with an exponent, with the sign of
zero kept. -/
def renderShortest (value : Float) : String :=
  match Reading.ofFloat value with
  | .undefined => "NaN"
  | .infinite negative => if negative then "-inf" else "inf"
  | .finite exact =>
    let body := if exact.mantissa = 0 then ['0'] else (Shortest.ofBinary exact).render
    String.ofList (if exact.negative then '-' :: body else body)

end LabelPlacement.Decimal
