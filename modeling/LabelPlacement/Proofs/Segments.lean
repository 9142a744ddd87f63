import LabelPlacement.Proofs.Headings

/-!
# Straight ways

The points on the straight way from one point to another, by the share of the way that leads to them
(`Point.toward`). A point is on the way when it does not turn off the line and does not lie beyond
either end.
-/

namespace LabelPlacement

namespace Point

/-- The point that a share of the way from one point to another leads to. -/
def toward (start finish : Point ℝ) (share : ℝ) : Point ℝ :=
  ⟨start.x + share * (finish.x - start.x), start.y + share * (finish.y - start.y)⟩

/-- A point is on the way from one point to another, its ends included. -/
def IsBetween (start finish point : Point ℝ) : Prop :=
  ∃ share, 0 ≤ share ∧ share ≤ 1 ∧ point = start.toward finish share

variable {start finish point : Point ℝ}

theorem toward_zero (start finish : Point ℝ) : start.toward finish 0 = start := by
  simp [toward]

theorem toward_one (start finish : Point ℝ) : start.toward finish 1 = finish := by
  simp [toward]

theorem isBetween_start (start finish : Point ℝ) : start.IsBetween finish start :=
  ⟨0, le_rfl, zero_le_one, (toward_zero start finish).symm⟩

theorem isBetween_finish (start finish : Point ℝ) : start.IsBetween finish finish :=
  ⟨1, zero_le_one, le_rfl, (toward_one start finish).symm⟩

theorem isBetween_comm : start.IsBetween finish point ↔ finish.IsBetween start point := by
  have hback : ∀ {start finish : Point ℝ}, start.IsBetween finish point →
      finish.IsBetween start point := by
    rintro start finish ⟨share, hshare, hone, rfl⟩
    refine ⟨1 - share, by linarith, by linarith, ?_⟩
    simp only [toward, mk.injEq]
    constructor <;> ring
  exact ⟨hback, hback⟩

theorem IsBetween.turn_eq_zero (hbetween : start.IsBetween finish point) :
    start.turn finish point = 0 := by
  obtain ⟨share, -, -, rfl⟩ := hbetween
  simp only [turn, toward]
  ring

theorem eq_of_squares_nonpos {left right : Point ℝ}
    (hsquares : (right.x - left.x) * (right.x - left.x) +
      (right.y - left.y) * (right.y - left.y) ≤ 0) : left = right := by
  have hx : right.x - left.x = 0 := by
    nlinarith [mul_self_nonneg (right.x - left.x), mul_self_nonneg (right.y - left.y)]
  have hy : right.y - left.y = 0 := by
    nlinarith [mul_self_nonneg (right.x - left.x), mul_self_nonneg (right.y - left.y)]
  exact Point.ext (by linarith) (by linarith)

/-- A point that does not turn off a line is some share of the way along it. -/
theorem exists_eq_toward (hline : start.turn finish point = 0) (hends : start ≠ finish) :
    ∃ share, point = start.toward finish share := by
  have hlong : 0 < (finish.x - start.x) * (finish.x - start.x) +
      (finish.y - start.y) * (finish.y - start.y) :=
    lt_of_not_ge fun hnone => hends (eq_of_squares_nonpos hnone)
  rw [turn] at hline
  -- The share is that of the projection onto the line.
  refine ⟨
    ((point.x - start.x) * (finish.x - start.x) + (point.y - start.y) * (finish.y - start.y)) /
    ((finish.x - start.x) * (finish.x - start.x) + (finish.y - start.y) * (finish.y - start.y)), ?_⟩
  refine Point.ext ?_ ?_
  · simp only [toward]
    rw [div_mul_eq_mul_div, ← sub_eq_iff_eq_add', eq_div_iff hlong.ne']
    linear_combination -(finish.y - start.y) * hline
  · simp only [toward]
    rw [div_mul_eq_mul_div, ← sub_eq_iff_eq_add', eq_div_iff hlong.ne']
    linear_combination (finish.x - start.x) * hline

/-- A point beside a way, and not to the left of it, is on it. -/
theorem Beside.isBetween (hbeside : start.Beside finish point)
    (hturn : start.turn finish point ≤ 0) : start.IsBetween finish point := by
  obtain ⟨hline, hwithin⟩ := hbeside.resolve_left (not_lt.mpr hturn)
  rw [Displacement.dot_eq] at hwithin
  simp only [Displacement.between] at hwithin
  by_cases hends : start = finish
  · subst hends
    rw [← eq_of_squares_nonpos hwithin]
    exact isBetween_start start start
  · obtain ⟨share, rfl⟩ := exists_eq_toward hline hends
    have hlong : 0 < (finish.x - start.x) * (finish.x - start.x) +
        (finish.y - start.y) * (finish.y - start.y) :=
      lt_of_not_ge fun hnone => hends (eq_of_squares_nonpos hnone)
    have hscaled : share * (share - 1) * ((finish.x - start.x) * (finish.x - start.x) +
        (finish.y - start.y) * (finish.y - start.y)) ≤ 0 := by
      refine le_of_eq_of_le ?_ hwithin
      simp only [toward]
      ring
    have hproduct : share * (share - 1) ≤ 0 := nonpos_of_mul_nonpos_left hscaled hlong
    exact ⟨share, by nlinarith, by nlinarith, rfl⟩

end Point

end LabelPlacement
