import Mathlib.Analysis.Real.Sqrt
import Mathlib.Analysis.SpecialFunctions.Complex.Arg
import LabelPlacement.Geometry.Rectangle
import LabelPlacement.Proofs.Lawful

/-!
# Real numbers

The real numbers with exact sums, comparisons and roots. Angles are measured so that half a turn is
`Trigonometric.halfTurn`, which is what `Real.pi` is rounded to; taking half turns away from an
angle therefore leaves its line as it is.
-/

namespace LabelPlacement

noncomputable instance : Scalar ℝ where
  ofNat count := count
  infinity := 1000000000000
  isFinite _ := true
  wholePart value := ⌊value⌋₊
  decideLt := inferInstance
  decideLe := inferInstance

/-- The radians in the unit of angles. -/
noncomputable def radians : ℝ := Real.pi / 3.141592653589793

noncomputable instance : Trigonometric ℝ where
  sqrt := Real.sqrt
  sin angle := Real.sin (angle * radians)
  cos angle := Real.cos (angle * radians)
  arctan vertical horizontal := Complex.arg ⟨horizontal, vertical⟩ / radians
  remainder left right :=
    left - right * (if 0 ≤ left / right then ⌊left / right⌋ else ⌈left / right⌉ : ℤ)

/-! ### Comparing and counting -/

namespace Scalar

/-- The numbers that definitions name by a numeral. -/
theorem numeral_eq (count : Nat) :
    @OfNat.ofNat ℝ count (instOfNatOfScalar count) = (count : ℝ) := rfl

theorem larger_eq_max (left right : ℝ) : larger left right = max left right := by
  rw [larger]
  split
  · rename_i hlt
    exact (max_eq_right (le_of_lt hlt)).symm
  · rename_i hlt
    rw [if_pos (by exact beq_self_eq_true left)]
    exact (max_eq_left (not_lt.mp hlt)).symm

theorem smaller_eq_min (left right : ℝ) : smaller left right = min left right := by
  rw [smaller]
  split
  · rename_i hlt
    exact (min_eq_right (le_of_lt hlt)).symm
  · rename_i hlt
    rw [if_pos (by exact beq_self_eq_true left)]
    exact (min_eq_left (not_lt.mp hlt)).symm

/-- No number of the range is nearer to a number than the one it is clamped to. -/
theorem abs_clamp_sub_le {low high point : ℝ} (value : ℝ) (hlow : low ≤ point)
    (hhigh : point ≤ high) : |clamp value low high - value| ≤ |point - value| := by
  have hclamp : clamp value low high =
      if high < (if value < low then low else value) then high
      else if value < low then low else value := rfl
  rw [hclamp]
  by_cases hbelow : value < low
  · rw [if_pos hbelow, if_neg (not_lt.mpr (hlow.trans hhigh)), abs_of_pos (by linarith),
      abs_of_nonneg (by linarith)]
    linarith
  · rw [if_neg hbelow]
    by_cases habove : high < value
    · rw [if_pos habove, abs_of_neg (by linarith), abs_of_nonpos (by linarith)]
      linarith
    · rw [if_neg habove, sub_self, abs_zero]
      exact abs_nonneg _

end Scalar

instance : LawfulScalar ℝ where
  le_trans hfirst hsecond := le_trans hfirst hsecond
  lt_iff := lt_iff_le_not_ge
  beq_self := ⟨fun _ => le_refl _, fun _ => beq_self_eq_true _⟩
  le_total _ _ := le_total _ _
  left_of_le _ := le_refl _
  right_of_le _ := le_refl _
  zero_le_zero := le_refl _
  add_le_add _ hle _ := add_le_add_right hle _
  le_add {base margin} hmargin _ := by
    rw [Scalar.numeral_eq, Nat.cast_zero] at hmargin
    exact le_add_of_nonneg_right hmargin
  sub_le_sub _ hle _ := sub_le_sub_left hle _
  sub_le {base margin} hmargin _ := by
    rw [Scalar.numeral_eq, Nat.cast_zero] at hmargin
    exact sub_le_self base hmargin

/-! ### Turns -/

theorem halfTurn_mul_radians : (Trigonometric.halfTurn : ℝ) * radians = Real.pi := by
  change (3.141592653589793 : ℝ) * (Real.pi / 3.141592653589793) = Real.pi
  exact mul_div_cancel₀ Real.pi (by norm_num)

theorem exists_uprightAngle_eq (angle : ℝ) :
    ∃ turns : ℤ, uprightAngle angle = angle + turns * Trigonometric.halfTurn := by
  have hreduced : ∃ turns : ℤ, Trigonometric.remainder angle Trigonometric.halfTurn =
      angle + turns * (Trigonometric.halfTurn : ℝ) := by
    refine ⟨-(if 0 ≤ angle / Trigonometric.halfTurn then ⌊angle / Trigonometric.halfTurn⌋
      else ⌈angle / Trigonometric.halfTurn⌉), ?_⟩
    change angle - Trigonometric.halfTurn * _ = _
    push_cast
    ring
  obtain ⟨turns, hreduced⟩ := hreduced
  rw [uprightAngle, hreduced]
  split
  · refine ⟨turns - 1, ?_⟩
    push_cast
    ring
  · split
    · refine ⟨turns + 1, ?_⟩
      push_cast
      ring
    · exact ⟨turns, rfl⟩

/-- A direction runs along the line that its upright angle gives. -/
theorem cos_uprightAngle_mul (direction : Displacement ℝ) :
    (Trigonometric.cos (uprightAngle direction.angle) : ℝ) * direction.y =
      Trigonometric.sin (uprightAngle direction.angle) * direction.x := by
  obtain ⟨turns, hturns⟩ := exists_uprightAngle_eq direction.angle
  set vector : ℂ := ⟨direction.x, direction.y⟩ with hvector
  have hradians : (direction.angle + turns * Trigonometric.halfTurn) * radians =
      vector.arg + turns * Real.pi := by
    have hangle : direction.angle * radians = vector.arg :=
      div_mul_cancel₀ vector.arg (div_pos Real.pi_pos (by norm_num)).ne'
    rw [add_mul, hangle, mul_assoc, halfTurn_mul_radians]
  change Real.cos (uprightAngle direction.angle * radians) * vector.im =
    Real.sin (uprightAngle direction.angle * radians) * vector.re
  rw [hturns, hradians, Real.cos_add_int_mul_pi, Real.sin_add_int_mul_pi,
    ← Complex.norm_mul_cos_arg vector, ← Complex.norm_mul_sin_arg vector]
  ring

theorem ofAngle_zero : Rotation.ofAngle ((0 : Nat) : ℝ) = ⟨1, 0⟩ := by
  have hzero : ((0 : Nat) : ℝ) * radians = 0 := by rw [Nat.cast_zero, zero_mul]
  change Rotation.mk (Real.cos (((0 : Nat) : ℝ) * radians)) (Real.sin (((0 : Nat) : ℝ) * radians)) =
    _
  rw [hzero, Real.cos_zero, Real.sin_zero]

/-! ### Lengths -/

namespace Displacement

theorem length_eq_sqrt (displacement : Displacement ℝ) :
    displacement.length = √(displacement.x * displacement.x + displacement.y * displacement.y) :=
  rfl

theorem length_nonneg (displacement : Displacement ℝ) : 0 ≤ displacement.length :=
  Real.sqrt_nonneg _

theorem length_mul_length (displacement : Displacement ℝ) :
    displacement.length * displacement.length =
      displacement.x * displacement.x + displacement.y * displacement.y :=
  Real.mul_self_sqrt (add_nonneg (mul_self_nonneg _) (mul_self_nonneg _))

theorem length_le_of_abs_le {first second : Displacement ℝ} (hx : |first.x| ≤ |second.x|)
    (hy : |first.y| ≤ |second.y|) : first.length ≤ second.length := by
  apply Real.sqrt_le_sqrt
  exact add_le_add (abs_le_iff_mul_self_le.mp hx) (abs_le_iff_mul_self_le.mp hy)

theorem abs_le_length (displacement : Displacement ℝ) :
    |displacement.x| ≤ displacement.length ∧ |displacement.y| ≤ displacement.length := by
  rw [length_eq_sqrt]
  constructor
  · apply Real.abs_le_sqrt
    linarith [mul_self_nonneg displacement.y, sq displacement.x]
  · apply Real.abs_le_sqrt
    linarith [mul_self_nonneg displacement.x, sq displacement.y]

theorem unit?_eq_some {displacement direction : Displacement ℝ}
    (hunit : displacement.unit? = some direction) :
    0 < displacement.length ∧ direction.x * direction.x + direction.y * direction.y = 1 ∧
      direction.scale displacement.length = displacement := by
  have hlong : ¬displacement.length ≤ Scalar.unitGap ∧
      (⟨displacement.x / displacement.length, displacement.y / displacement.length⟩ :
        Displacement ℝ) = direction := by
    simpa [unit?] using hunit
  obtain ⟨hlong, rfl⟩ := hlong
  have hgap : (0 : ℝ) < Scalar.unitGap := by
    change (0 : ℝ) < 2.220446049250313e-16
    norm_num
  have hpos : 0 < displacement.length := hgap.trans (not_le.mp hlong)
  have hne := hpos.ne'
  refine ⟨hpos, ?_, ?_⟩
  · field_simp
    rw [pow_two, pow_two, pow_two, length_mul_length]
  · simp only [scale, div_mul_cancel₀ _ hne]

end Displacement

/-! ### Boxes -/

namespace Box

/-- The box holds a point, its boundary included. -/
structure Holds (box : Box ℝ) (point : Point ℝ) : Prop where
  left : box.lower.x ≤ point.x
  right : point.x ≤ box.upper.x
  below : box.lower.y ≤ point.y
  above : point.y ≤ box.upper.y

theorem enclose_eq {box : Box ℝ} (hbox : box.isEmpty = false) (point : Point ℝ) :
    box.enclose point =
      ⟨⟨min box.lower.x point.x, min box.lower.y point.y⟩,
        ⟨max point.x box.upper.x, max point.y box.upper.y⟩⟩ := by
  rw [enclose, hbox, min_def_lt, min_def_lt, max_def_lt, max_def_lt]
  rfl

theorem holds_enclose (box : Box ℝ) (point : Point ℝ) : (box.enclose point).Holds point := by
  cases hbox : box.isEmpty with
  | true =>
    rw [enclose, if_pos hbox]
    exact ⟨le_rfl, le_rfl, le_rfl, le_rfl⟩
  | false =>
    rw [enclose_eq hbox]
    exact ⟨min_le_right _ _, le_max_left _ _, min_le_right _ _, le_max_left _ _⟩

theorem Holds.isEmpty_eq {box : Box ℝ} {point : Point ℝ} (hholds : box.Holds point) :
    box.isEmpty = false := by
  rw [isEmpty, Bool.or_eq_false_iff, decide_eq_false_iff_not, decide_eq_false_iff_not]
  exact ⟨not_lt.mpr (hholds.left.trans hholds.right), not_lt.mpr (hholds.below.trans hholds.above)⟩

theorem Holds.enclose {box : Box ℝ} {point : Point ℝ} (hholds : box.Holds point)
    (other : Point ℝ) : (box.enclose other).Holds point := by
  rw [enclose_eq hholds.isEmpty_eq]
  exact ⟨(min_le_left _ _).trans hholds.left, hholds.right.trans (le_max_right _ _),
    (min_le_left _ _).trans hholds.below, hholds.above.trans (le_max_right _ _)⟩

/-- A box around points holds each of them. -/
theorem holds_ofPoints {points : List (Point ℝ)} {point : Point ℝ} (hmem : point ∈ points) :
    (ofPoints points).Holds point := by
  have hfold : ∀ (points : List (Point ℝ)) (box : Box ℝ), box.Holds point ∨ point ∈ points →
      (points.foldl Box.enclose box).Holds point := by
    intro points
    induction points with
    | nil => exact fun box hor => hor.resolve_right List.not_mem_nil
    | cons first rest ih =>
      rintro box (hholds | hmem)
      · exact ih _ (Or.inl (hholds.enclose first))
      · rcases List.mem_cons.mp hmem with rfl | hrest
        · exact ih _ (Or.inl (box.holds_enclose point))
        · exact ih _ (Or.inr hrest)
  exact hfold points empty (Or.inr hmem)

/-- No point of a box is nearer to an anchor than the one that a leader line ends at. -/
theorem Holds.distance_nearestTo_le {box : Box ℝ} {point : Point ℝ} (hholds : box.Holds point)
    (anchor : Point ℝ) : anchor.distance (box.nearestTo anchor) ≤ anchor.distance point := by
  apply Displacement.length_le_of_abs_le
  · change |anchor.x - (box.nearestTo anchor).x| ≤ |anchor.x - point.x|
    rw [abs_sub_comm, abs_sub_comm anchor.x]
    exact Scalar.abs_clamp_sub_le anchor.x hholds.left hholds.right
  · change |anchor.y - (box.nearestTo anchor).y| ≤ |anchor.y - point.y|
    rw [abs_sub_comm, abs_sub_comm anchor.y]
    exact Scalar.abs_clamp_sub_le anchor.y hholds.below hholds.above

end Box

end LabelPlacement
