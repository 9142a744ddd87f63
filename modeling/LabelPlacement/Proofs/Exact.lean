import Mathlib.Algebra.Order.Ring.Rat
import Mathlib.Tactic.Linarith
import LabelPlacement.Proofs.Lawful

/-!
# Exact arithmetic

The rational numbers with exact sums and comparisons. Square roots are rounded down to the
denominator of the number, and an angle stands for the double of the one whose tangent is half of
it, so that turned boxes have rational corners again.
-/

namespace LabelPlacement

/-- The largest number of the same denominator whose square is not larger. -/
def rationalSqrt (value : Rat) : Rat :=
  mkRat (Nat.sqrt (value.num.toNat * value.den)) value.den

instance : Trigonometric Rat where
  compare left right := compareOfLessAndEq left right
  ofNat count := count
  infinity := 1000000000000
  isFinite _ := true
  wholePart value := value.floor.toNat
  decideLt := inferInstance
  decideLe := inferInstance
  sqrt := rationalSqrt
  sin angle := angle / (1 + angle / 2 * (angle / 2))
  cos angle := (1 - angle / 2 * (angle / 2)) / (1 + angle / 2 * (angle / 2))
  arctan vertical horizontal :=
    2 * vertical / (rationalSqrt (horizontal * horizontal + vertical * vertical) + horizontal)
  remainder left right := left - right * ((left / right).num.tdiv (left / right).den : Int)

instance : LawfulScalar Rat where
  le_trans hfirst hsecond := Rat.le_trans hfirst hsecond
  lt_iff := Rat.lt_iff_le_and_not_ge
  beq_self := ⟨fun _ => Rat.le_refl, fun _ => beq_self_eq_true _⟩
  le_total _ _ := Rat.le_total
  left_of_le _ := Rat.le_refl
  right_of_le _ := Rat.le_refl
  zero_le_zero := Rat.le_refl
  add_le_add _ hle _ := Rat.add_le_add_left.mpr hle
  le_add {base margin} hmargin _ := by
    change base ≤ (base + margin : Rat)
    have hpositive : (0 : Rat) ≤ margin := hmargin
    linarith
  sub_le_sub {base small large} _ hle _ := by
    change (base - large : Rat) ≤ base - small
    have hmargins : (small : Rat) ≤ large := hle
    linarith
  sub_le {base margin} hmargin _ := by
    change (base - margin : Rat) ≤ base
    have hpositive : (0 : Rat) ≤ margin := hmargin
    linarith

theorem eq_of_indistinct {left right : Rat} (hsame : Scalar.Indistinct left right) :
    left = right :=
  Rat.le_antisymm ((hsame right).1.mpr Rat.le_refl) ((hsame left).1.mp Rat.le_refl)

instance : LawfulEquality Rat where
  indistinct_of_beq hequal other := by rw [eq_of_beq hequal]; exact ⟨Iff.rfl, Iff.rfl⟩
  indistinct_add hsame _ _ := by rw [eq_of_indistinct hsame]; exact ⟨Iff.rfl, Iff.rfl⟩
  indistinct_sub hsame _ _ := by rw [eq_of_indistinct hsame]; exact ⟨Iff.rfl, Iff.rfl⟩

end LabelPlacement
