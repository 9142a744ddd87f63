/-!
The numbers that coordinates, sizes and angles are made of.

`Scalar` gathers what an ordered field offers, together with the few constants and conversions that
placement needs.  Every geometric definition is written over it, so the same text runs on binary
floating point and can be read in exact arithmetic.  `Trigonometric` adds square roots and angles.
-/

namespace LabelPlacement

class Scalar (α : Type) extends
    Add α, Sub α, Mul α, Div α, Neg α, LT α, LE α, BEq α, Ord α, OfScientific α where
  ofNat : Nat → α
  /-- A positive number beyond every coordinate, or at least above its own negation. -/
  infinity : α
  isFinite : α → Bool
  /-- The whole part, with zero for everything below one. -/
  wholePart : α → Nat
  decideLt : ∀ left right : α, Decidable (left < right)
  decideLe : ∀ left right : α, Decidable (left ≤ right)

attribute [reducible, instance] Scalar.decideLt Scalar.decideLe

instance (priority := low) {α : Type} [Scalar α] (n : Nat) : OfNat α n := ⟨Scalar.ofNat n⟩

class Trigonometric (α : Type) extends Scalar α where
  sqrt : α → α
  sin : α → α
  cos : α → α
  /-- The angle of the direction `(x, y)`, called with `y` first. -/
  arctan : α → α → α
  /-- The remainder of a division that truncates, with the sign of the dividend. -/
  remainder : α → α → α

namespace Scalar

variable {α : Type} [Scalar α]

/-- The larger of two numbers; an undefined operand gives way to the other one. -/
def larger (left right : α) : α :=
  if left < right then right else if left == left then left else right

def smaller (left right : α) : α :=
  if right < left then right else if left == left then left else right

/-- The number of the range from `low` to `high` nearest to `value`.  It stands for a computation
that crashes unless `low ≤ high`; where that may fail, the endings of runs take account of it. -/
def clamp (value low high : α) : α :=
  let raised := if value < low then low else value
  if high < raised then high else raised

def magnitude (value : α) : α :=
  if value < 0 then -value else value

def unitGap : α := 2.220446049250313e-16

end Scalar

namespace Trigonometric

variable {α : Type} [Trigonometric α]

def halfTurn : α := 3.141592653589793

def quarterTurn : α := 1.5707963267948966

def ofDegrees (degrees : α) : α := degrees * 0.017453292519943295

def toDegrees (radians : α) : α := radians * 57.29577951308232

end Trigonometric

end LabelPlacement
