import LabelPlacement.Proofs.Bumping
import LabelPlacement.Proofs.Segments

/-!
# Turned rectangles

The points of a rectangle are told apart by how far they lie from its centre along its sides
(`Point.aside`). A rectangle holds the points at shares of its sides, and a point is inside when it
is strictly to the left of all sides, so that a rectangle without width or height has no inside.
-/

namespace LabelPlacement

/-- A rotation turns points without moving them nearer to its centre or away from it. -/
def Rotation.IsUnit (rotation : Rotation ℝ) : Prop :=
  rotation.cos * rotation.cos + rotation.sin * rotation.sin = 1

theorem Rotation.isUnit_ofAngle (angle : ℝ) : (Rotation.ofAngle angle).IsUnit := by
  have hunit : Real.cos (angle * radians) ^ 2 + Real.sin (angle * radians) ^ 2 = 1 :=
    Real.cos_sq_add_sin_sq _
  rw [sq, sq] at hunit
  exact hunit

/-- Every rotation is the rotation by some angle. -/
theorem Rotation.IsUnit.exists_ofAngle {rotation : Rotation ℝ} (hunit : rotation.IsUnit) :
    ∃ angle, Rotation.ofAngle angle = rotation := by
  have hradians : radians ≠ 0 := (div_pos Real.pi_pos (by norm_num)).ne'
  have hnorm : ‖(⟨rotation.cos, rotation.sin⟩ : ℂ)‖ = 1 := by
    rw [Complex.norm_def, Real.sqrt_eq_one, Complex.normSq_mk]
    exact hunit
  refine ⟨Complex.arg ⟨rotation.cos, rotation.sin⟩ / radians, ?_⟩
  have hcos := Complex.norm_mul_cos_arg (⟨rotation.cos, rotation.sin⟩ : ℂ)
  have hsin := Complex.norm_mul_sin_arg (⟨rotation.cos, rotation.sin⟩ : ℂ)
  rw [hnorm, one_mul] at hcos hsin
  change Rotation.mk (Real.cos (_ / radians * radians)) (Real.sin (_ / radians * radians)) = _
  rw [div_mul_cancel₀ _ hradians, hcos, hsin]

theorem Displacement.dot_rotate {rotation : Rotation ℝ} (hunit : rotation.IsUnit)
    (left right : Displacement ℝ) :
    (left.rotate rotation).dot (right.rotate rotation) = left.dot right := by
  unfold Rotation.IsUnit at hunit
  simp only [dot_eq, rotate]
  linear_combination (left.x * right.x + left.y * right.y) * hunit

/-- The point that lies aside of a centre along the directions of a rotation. -/
noncomputable def Point.aside (centre : Point ℝ) (rotation : Rotation ℝ) (across up : ℝ) :
    Point ℝ :=
  centre.translate ((⟨across, up⟩ : Displacement ℝ).rotate rotation)

theorem Point.exists_eq_aside {rotation : Rotation ℝ} (hunit : rotation.IsUnit)
    (centre point : Point ℝ) : ∃ across up, point = centre.aside rotation across up := by
  unfold Rotation.IsUnit at hunit
  refine ⟨rotation.cos * (point.x - centre.x) + rotation.sin * (point.y - centre.y),
    rotation.cos * (point.y - centre.y) - rotation.sin * (point.x - centre.x),
    Point.ext ?_ ?_⟩
  · simp only [aside, translate, Displacement.rotate]
    linear_combination -(point.x - centre.x) * hunit
  · simp only [aside, translate, Displacement.rotate]
    linear_combination -(point.y - centre.y) * hunit

theorem Point.turn_aside {rotation : Rotation ℝ} (hunit : rotation.IsUnit) (centre : Point ℝ)
    (x y x' y' x'' y'' : ℝ) :
    (centre.aside rotation x y).turn (centre.aside rotation x' y')
        (centre.aside rotation x'' y'') =
      (x' - x) * (y'' - y) - (y' - y) * (x'' - x) := by
  unfold Rotation.IsUnit at hunit
  simp only [turn, aside, translate, Displacement.rotate]
  linear_combination ((x' - x) * (y'' - y) - (y' - y) * (x'' - x)) * hunit

namespace Corners

/-- The point of a rectangle at shares of its lower and of its left side. -/
def spot (corners : Corners ℝ) (across up : ℝ) : Point ℝ :=
  ⟨corners.lowerLeft.x + across * (corners.lowerRight.x - corners.lowerLeft.x) +
      up * (corners.upperLeft.x - corners.lowerLeft.x),
    corners.lowerLeft.y + across * (corners.lowerRight.y - corners.lowerLeft.y) +
      up * (corners.upperLeft.y - corners.lowerLeft.y)⟩

/-- The rectangle holds a point, its sides included. -/
def Holds (corners : Corners ℝ) (point : Point ℝ) : Prop :=
  ∃ across up, 0 ≤ across ∧ across ≤ 1 ∧ 0 ≤ up ∧ up ≤ 1 ∧ point = corners.spot across up

/-- The point is inside the rectangle: strictly to the left of its sides. -/
def HoldsInside (corners : Corners ℝ) (point : Point ℝ) : Prop :=
  ∀ side ∈ closedEdges corners.toList, 0 < side.1.turn side.2 point

variable {centre point : Point ℝ} {width height : ℝ} {rotation : Rotation ℝ}

theorem toList_ofCenter_eq (centre : Point ℝ) (width height : ℝ) (rotation : Rotation ℝ) :
    (ofCenter centre width height rotation).toList =
      [centre.aside rotation (-(width / 2)) (-(height / 2)),
        centre.aside rotation (width / 2) (-(height / 2)),
        centre.aside rotation (width / 2) (height / 2),
        centre.aside rotation (-(width / 2)) (height / 2)] := by
  simp only [toList, ofCenter, Point.aside, Point.rotateAbout, Point.translate,
    Displacement.between, Displacement.rotate, List.cons.injEq, Point.mk.injEq, and_true]
  refine ⟨⟨?_, ?_⟩, ⟨?_, ?_⟩, ⟨?_, ?_⟩, ?_, ?_⟩ <;> ring

theorem spot_ofCenter (centre : Point ℝ) (width height : ℝ) (rotation : Rotation ℝ)
    (across up : ℝ) :
    (ofCenter centre width height rotation).spot across up =
      centre.aside rotation ((across - 1 / 2) * width) ((up - 1 / 2) * height) := by
  simp only [spot, ofCenter, Point.aside, Point.rotateAbout, Point.translate,
    Displacement.between, Displacement.rotate, Point.mk.injEq]
  constructor <;> ring

/-- A rectangle holds the points that are aside of its centre by no more than half of its sides. -/
theorem Holds.exists_aside (hholds : (ofCenter centre width height rotation).Holds point)
    (hwidth : 0 ≤ width) (hheight : 0 ≤ height) :
    ∃ across up, |across| ≤ width / 2 ∧ |up| ≤ height / 2 ∧
      point = centre.aside rotation across up := by
  obtain ⟨across, up, hacross, hacross', hup, hup', rfl⟩ := hholds
  refine ⟨_, _, ?_, ?_, spot_ofCenter centre width height rotation across up⟩
  · rw [abs_le]
    constructor <;> nlinarith
  · rw [abs_le]
    constructor <;> nlinarith

/-- The sides of a rectangle see a point by how far it is from them. -/
theorem holdsInside_aside_iff (hunit : rotation.IsUnit) (across up : ℝ) :
    (ofCenter centre width height rotation).HoldsInside (centre.aside rotation across up) ↔
      (0 < width * (up + height / 2) ∧ 0 < width * (height / 2 - up)) ∧
        0 < height * (across + width / 2) ∧ 0 < height * (width / 2 - across) := by
  rw [HoldsInside, toList_ofCenter_eq]
  simp only [closedEdges, List.cons_append, List.nil_append, List.zip_cons_cons,
    List.zip_nil_right, List.forall_mem_cons, Point.turn_aside hunit, List.not_mem_nil,
    IsEmpty.forall_iff, implies_true, and_true]
  constructor
  · rintro ⟨hlower, hright, hupper, hleft⟩
    refine ⟨⟨?_, ?_⟩, ?_, ?_⟩ <;> nlinarith
  · rintro ⟨⟨hlower, hupper⟩, hleft, hright⟩
    refine ⟨?_, ?_, ?_, ?_⟩ <;> nlinarith

/-- The inside of a rectangle lies aside of its centre by less than half of its sides. -/
theorem holdsInside_iff (hunit : rotation.IsUnit) (hwidth : 0 ≤ width) (hheight : 0 ≤ height) :
    (ofCenter centre width height rotation).HoldsInside point ↔
      ∃ across up, |across| < width / 2 ∧ |up| < height / 2 ∧
        point = centre.aside rotation across up := by
  constructor
  · intro hinside
    obtain ⟨across, up, rfl⟩ := Point.exists_eq_aside hunit centre point
    obtain ⟨⟨hlower, hupper⟩, hleft, hright⟩ := (holdsInside_aside_iff hunit across up).mp hinside
    refine ⟨across, up, abs_lt.mpr ⟨?_, ?_⟩, abs_lt.mpr ⟨?_, ?_⟩, rfl⟩
    · linarith [pos_of_mul_pos_right hleft hheight]
    · linarith [pos_of_mul_pos_right hright hheight]
    · linarith [pos_of_mul_pos_right hlower hwidth]
    · linarith [pos_of_mul_pos_right hupper hwidth]
  · rintro ⟨across, up, hacross, hup, rfl⟩
    obtain ⟨hleft, hright⟩ := abs_lt.mp hacross
    obtain ⟨hlower, hupper⟩ := abs_lt.mp hup
    have hwide : 0 < width := by linarith
    have htall : 0 < height := by linarith
    refine (holdsInside_aside_iff hunit across up).mpr ⟨⟨?_, ?_⟩, ?_, ?_⟩
    · exact mul_pos hwide (by linarith)
    · exact mul_pos hwide (by linarith)
    · exact mul_pos htall (by linarith)
    · exact mul_pos htall (by linarith)

/-! ### Upright rectangles -/

theorem corners_upright (centre : Point ℝ) (width height : ℝ) :
    (Candidate.create centre width height 0).corners = ofCenter centre width height ⟨1, 0⟩ := by
  have hlevel : Rotation.ofAngle (0 : ℝ) = ⟨1, 0⟩ := by
    rw [← ofAngle_zero, Nat.cast_zero]
  rw [← hlevel]
  rfl

theorem toList_upright (centre : Point ℝ) (width height : ℝ) :
    (Candidate.create centre width height 0).corners.toList =
      [⟨centre.x - width / 2, centre.y - height / 2⟩, ⟨centre.x + width / 2, centre.y - height / 2⟩,
        ⟨centre.x + width / 2, centre.y + height / 2⟩,
        ⟨centre.x - width / 2, centre.y + height / 2⟩] := by
  rw [corners_upright, toList_ofCenter_eq]
  simp [Point.aside, Point.translate, Displacement.rotate, sub_eq_add_neg]

theorem holdsInside_upright_iff (hwidth : 0 ≤ width) (hheight : 0 ≤ height) :
    (Candidate.create centre width height 0).corners.HoldsInside point ↔
      |point.x - centre.x| < width / 2 ∧ |point.y - centre.y| < height / 2 := by
  have hunit : (⟨1, 0⟩ : Rotation ℝ).IsUnit := by norm_num [Rotation.IsUnit]
  have haside : ∀ across up : ℝ,
      centre.aside ⟨1, 0⟩ across up = ⟨centre.x + across, centre.y + up⟩ := by
    intro across up
    simp [Point.aside, Point.translate, Displacement.rotate]
  rw [corners_upright, holdsInside_iff hunit hwidth hheight]
  constructor
  · rintro ⟨across, up, hacross, hup, rfl⟩
    rw [haside, add_sub_cancel_left, add_sub_cancel_left]
    exact ⟨hacross, hup⟩
  · rintro ⟨hacross, hup⟩
    refine ⟨_, _, hacross, hup, ?_⟩
    rw [haside, add_sub_cancel, add_sub_cancel]

end Corners

end LabelPlacement
