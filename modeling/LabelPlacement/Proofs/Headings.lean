import LabelPlacement.Geometry.Hull
import LabelPlacement.Proofs.Reals

/-!
# Headings and turns

Points are put in order along a heading: by how far they lie along it, and to its left where that is
the same (`Point.Precedes`). Ways that lead ahead never turn all the way round: of three of them, no
two can turn left, or go straight on, into the next one unless all three are on one line
(`Ahead.no_round_trip`). All that a walk along sorted points knows about its turns follows from
this.
-/

namespace LabelPlacement

attribute [ext] Point

/-! ### Ahead -/

/-- The number that decides is positive: the first one, or the second one when that is zero. -/
def LexPos (first second : ℝ) : Prop := 0 < first ∨ first = 0 ∧ 0 < second

namespace LexPos

variable {first second : ℝ}

theorem first_nonneg (hpos : LexPos first second) : 0 ≤ first := by
  obtain hfirst | ⟨hfirst, -⟩ := hpos
  · exact hfirst.le
  · exact hfirst.ge

theorem second_pos (hpos : LexPos first second) (hfirst : first = 0) : 0 < second := by
  obtain hlt | ⟨-, hsecond⟩ := hpos
  · exact absurd hfirst hlt.ne'
  · exact hsecond

theorem add {other more : ℝ} (hpos : LexPos first second) (hother : LexPos other more) :
    LexPos (first + other) (second + more) := by
  obtain hlt | hlt | ⟨hfirst, hzero⟩ :
      0 < first ∨ 0 < other ∨ (first = 0 ∧ other = 0) := by
    have := hpos.first_nonneg
    have := hother.first_nonneg
    grind
  · exact Or.inl (add_pos_of_pos_of_nonneg hlt hother.first_nonneg)
  · exact Or.inl (add_pos_of_nonneg_of_pos hpos.first_nonneg hlt)
  · refine Or.inr ⟨by rw [hfirst, hzero, add_zero], ?_⟩
    exact add_pos (hpos.second_pos hfirst) (hother.second_pos hzero)

/-- A weight under which the first number vanishes leaves the second one no less than zero, and zero
only if it is zero itself. -/
theorem weight (hpos : LexPos first second) {weight : ℝ} (hweight : 0 ≤ weight)
    (hzero : weight * first = 0) :
    0 ≤ weight * second ∧ (weight * second = 0 → weight = 0) := by
  obtain hnone | hfirst := mul_eq_zero.mp hzero
  · rw [hnone, zero_mul]
    exact ⟨le_rfl, fun _ => rfl⟩
  · have hsecond := hpos.second_pos hfirst
    exact ⟨mul_nonneg hweight hsecond.le,
      fun hboth => (mul_eq_zero.mp hboth).resolve_right hsecond.ne'⟩

end LexPos

/-- A displacement leads ahead: along the heading, or straight to the left of it. -/
def Ahead (heading displacement : Displacement ℝ) : Prop :=
  LexPos (heading.dot displacement) (heading.cross displacement)

namespace Displacement

theorem dot_eq (left right : Displacement ℝ) :
    left.dot right = left.x * right.x + left.y * right.y := rfl

theorem cross_eq (left right : Displacement ℝ) :
    left.cross right = left.x * right.y - left.y * right.x := rfl

theorem cross_comm (left right : Displacement ℝ) : left.cross right = -right.cross left := by
  rw [cross_eq, cross_eq]
  ring

end Displacement

variable {heading : Displacement ℝ}

namespace Ahead

variable {first second third : Displacement ℝ}

/-- **No round trip.** Three ways ahead that turn left one into the next, and the last into the
first, are all on one line. -/
theorem no_round_trip (hfirst : Ahead heading first) (hsecond : Ahead heading second)
    (hthird : Ahead heading third) (hturn : 0 ≤ first.cross second) (hnext : 0 ≤ second.cross third)
    (hback : 0 ≤ third.cross first) :
    first.cross second = 0 ∧ second.cross third = 0 ∧ third.cross first = 0 := by
  -- The three turns weigh the three ways so that they cancel out.
  have hdot : second.cross third * heading.dot first + third.cross first * heading.dot second +
      first.cross second * heading.dot third = 0 := by
    simp only [Displacement.dot_eq, Displacement.cross_eq]
    ring
  have hcross : second.cross third * heading.cross first +
      third.cross first * heading.cross second + first.cross second * heading.cross third = 0 := by
    simp only [Displacement.cross_eq]
    ring
  have hone := mul_nonneg hnext hfirst.first_nonneg
  have htwo := mul_nonneg hback hsecond.first_nonneg
  have hthree := mul_nonneg hturn hthird.first_nonneg
  obtain ⟨hfirstLeft, hfirstZero⟩ := hfirst.weight hnext (by linarith)
  obtain ⟨hsecondLeft, hsecondZero⟩ := hsecond.weight hback (by linarith)
  obtain ⟨hthirdLeft, hthirdZero⟩ := hthird.weight hturn (by linarith)
  exact ⟨hthirdZero (by linarith), hfirstZero (by linarith), hsecondZero (by linarith)⟩

theorem cross_nonneg_trans (hfirst : Ahead heading first) (hsecond : Ahead heading second)
    (hthird : Ahead heading third) (hturn : 0 ≤ first.cross second)
    (hnext : 0 ≤ second.cross third) : 0 ≤ first.cross third := by
  by_contra hright
  have hback : 0 < third.cross first := by
    rw [Displacement.cross_comm]
    linarith
  exact hback.ne' (hfirst.no_round_trip hsecond hthird hturn hnext hback.le).2.2

theorem cross_pos_trans (hfirst : Ahead heading first) (hsecond : Ahead heading second)
    (hthird : Ahead heading third) (hturn : 0 ≤ first.cross second)
    (hnext : 0 < second.cross third) : 0 < first.cross third := by
  by_contra hright
  have hback : 0 ≤ third.cross first := by
    rw [Displacement.cross_comm]
    linarith
  exact hnext.ne' (hfirst.no_round_trip hsecond hthird hturn hnext.le hback).2.1

/-- Ways ahead on one line lead the same way. -/
theorem dot_pos (hfirst : Ahead heading first) (hsecond : Ahead heading second)
    (hline : first.cross second = 0) : 0 < first.dot second := by
  have hdot : heading.dot heading * first.dot second =
      heading.dot first * heading.dot second + heading.cross first * heading.cross second := by
    simp only [Displacement.dot_eq, Displacement.cross_eq]
    ring
  have hcross : heading.dot first * heading.cross second =
      heading.cross first * heading.dot second := by
    have hscaled : heading.dot first * heading.cross second -
        heading.cross first * heading.dot second = heading.dot heading * first.cross second := by
      simp only [Displacement.dot_eq, Displacement.cross_eq]
      ring
    rw [hline, mul_zero] at hscaled
    linarith
  have hproduct : 0 < heading.dot first * heading.dot second +
      heading.cross first * heading.cross second := by
    obtain hahead | ⟨hzero, hleft⟩ := hfirst
    · obtain hother | ⟨hnone, hside⟩ := hsecond
      · have hsides : 0 ≤ heading.cross first * heading.cross second := by
          refine nonneg_of_mul_nonneg_right ?_ hahead
          calc 0 ≤ heading.cross first * heading.cross first * heading.dot second :=
                mul_nonneg (mul_self_nonneg _) hother.le
            _ = heading.dot first * (heading.cross first * heading.cross second) := by
                linear_combination -heading.cross first * hcross
        linarith [mul_pos hahead hother]
      · rw [hnone, mul_zero] at hcross
        exact absurd hcross (mul_pos hahead hside).ne'
    · rw [hzero, zero_mul] at hcross
      have hnone : heading.dot second = 0 :=
        (mul_eq_zero.mp hcross.symm).resolve_left hleft.ne'
      rw [hzero, zero_mul, zero_add]
      exact mul_pos hleft (hsecond.second_pos hnone)
  rw [← hdot] at hproduct
  exact pos_of_mul_pos_right hproduct
    (add_nonneg (mul_self_nonneg heading.x) (mul_self_nonneg heading.y))

end Ahead

/-! ### Points along a heading -/

namespace Point

/-- How far the path from one point over another turns left to a third: twice the area between
them. -/
def turn (first second third : Point ℝ) : ℝ :=
  (second.x - first.x) * (third.y - first.y) - (second.y - first.y) * (third.x - first.x)

theorem turnsLeft_iff {first second third : Point ℝ} :
    Hull.turnsLeft first second third = true ↔ 0 < first.turn second third := by
  have hturn : (Displacement.between first second).cross (Displacement.between first third) =
      first.turn second third := rfl
  rw [Hull.turnsLeft, hturn, Scalar.numeral_eq, Nat.cast_zero]
  simp

/-- The turn from one way into the next. -/
theorem turn_eq_cross (first second third : Point ℝ) :
    first.turn second third =
      (Displacement.between first second).cross (.between second third) := by
  rw [turn, Displacement.cross_eq, Displacement.between, Displacement.between]
  ring

/-- The second point comes later along the heading. -/
def Precedes (heading : Displacement ℝ) (first second : Point ℝ) : Prop :=
  Ahead heading (.between first second)

namespace Precedes

variable {first second third : Point ℝ}

theorem trans (hfirst : first.Precedes heading second) (hsecond : second.Precedes heading third) :
    first.Precedes heading third := by
  have hdot : heading.dot (.between first third) =
      heading.dot (.between first second) + heading.dot (.between second third) := by
    simp only [Displacement.dot_eq, Displacement.between]
    ring
  have hcross : heading.cross (.between first third) =
      heading.cross (.between first second) + heading.cross (.between second third) := by
    simp only [Displacement.cross_eq, Displacement.between]
    ring
  rw [Precedes, Ahead, hdot, hcross]
  exact hfirst.add hsecond

theorem irrefl (point : Point ℝ) : ¬point.Precedes heading point := by
  have hdot : heading.dot (.between point point) = 0 := by
    simp [Displacement.dot_eq, Displacement.between]
  have hcross : heading.cross (.between point point) = 0 := by
    simp [Displacement.cross_eq, Displacement.between]
  rw [Precedes, Ahead, hdot, hcross]
  simp [LexPos]

theorem asymm (hfirst : first.Precedes heading second) : ¬second.Precedes heading first :=
  fun hback => irrefl first (hfirst.trans hback)

theorem ne (hfirst : first.Precedes heading second) : first ≠ second := by
  rintro rfl
  exact irrefl first hfirst

/-- Along a heading, two points that are not the same come one after the other. -/
theorem total (hheading : 0 < heading.dot heading) (first second : Point ℝ) :
    first = second ∨ first.Precedes heading second ∨ second.Precedes heading first := by
  have hdot : heading.dot (.between second first) = -heading.dot (.between first second) := by
    simp only [Displacement.dot_eq, Displacement.between]
    ring
  have hcross : heading.cross (.between second first) = -heading.cross (.between first second) := by
    simp only [Displacement.cross_eq, Displacement.between]
    ring
  rw [Precedes, Precedes, Ahead, Ahead, hdot, hcross]
  obtain hlt | hzero | hgt := lt_trichotomy (heading.dot (.between first second)) 0
  · exact Or.inr (Or.inr (Or.inl (by linarith)))
  · obtain hleft | hnone | hright := lt_trichotomy (heading.cross (.between first second)) 0
    · exact Or.inr (Or.inr (Or.inr ⟨by linarith, by linarith⟩))
    · refine Or.inl ?_
      have hx : heading.dot heading * (second.x - first.x) = 0 := by
        calc heading.dot heading * (second.x - first.x)
            = heading.x * heading.dot (.between first second) -
                heading.y * heading.cross (.between first second) := by
              simp only [Displacement.dot_eq, Displacement.cross_eq, Displacement.between]
              ring
          _ = 0 := by rw [hzero, hnone, mul_zero, mul_zero, sub_zero]
      have hy : heading.dot heading * (second.y - first.y) = 0 := by
        calc heading.dot heading * (second.y - first.y)
            = heading.y * heading.dot (.between first second) +
                heading.x * heading.cross (.between first second) := by
              simp only [Displacement.dot_eq, Displacement.cross_eq, Displacement.between]
              ring
          _ = 0 := by rw [hzero, hnone, mul_zero, mul_zero, add_zero]
      have hsameX := (mul_eq_zero.mp hx).resolve_left hheading.ne'
      have hsameY := (mul_eq_zero.mp hy).resolve_left hheading.ne'
      exact Point.ext (by linarith) (by linarith)
    · exact Or.inr (Or.inl (Or.inr ⟨hzero, hright⟩))
  · exact Or.inr (Or.inl (Or.inl hgt))

end Precedes

/-- A point lies to the left of the way from one point to another, or on it. -/
def Beside (start finish point : Point ℝ) : Prop :=
  0 < start.turn finish point ∨ start.turn finish point = 0 ∧
    (Displacement.between start point).dot (.between finish point) ≤ 0

namespace Beside

variable {start finish point : Point ℝ}

theorem turn_nonneg (hbeside : start.Beside finish point) : 0 ≤ start.turn finish point := by
  obtain hleft | ⟨hline, -⟩ := hbeside
  · exact hleft.le
  · exact hline.ge

theorem start_self (start finish : Point ℝ) : start.Beside finish start := by
  refine Or.inr ⟨?_, ?_⟩
  · rw [turn]
    ring
  · rw [Displacement.dot_eq, Displacement.between]
    simp

theorem finish_self (start finish : Point ℝ) : start.Beside finish finish := by
  refine Or.inr ⟨?_, ?_⟩
  · rw [turn]
    ring
  · rw [Displacement.dot_eq, Displacement.between, Displacement.between]
    simp

/-- A point between two others along a heading is on the way between them if it is not to the right
of it. -/
theorem of_between (hstart : start.Precedes heading point) (hfinish : point.Precedes heading finish)
    (hturn : 0 ≤ start.turn finish point) : start.Beside finish point := by
  obtain hleft | hline := hturn.lt_or_eq
  · exact Or.inl hleft
  · refine Or.inr ⟨hline.symm, ?_⟩
    have hcross : (Displacement.between start point).cross (.between point finish) = 0 := by
      rw [Displacement.cross_eq]
      simp only [turn, Displacement.between] at hline ⊢
      linarith
    have hsame := Ahead.dot_pos hstart hfinish hcross
    rw [Displacement.dot_eq] at hsame ⊢
    simp only [Displacement.between] at hsame ⊢
    linarith

/-- A point that comes later along a heading than both ends of a way is beside it only to the
left. -/
theorem turn_pos (hbeside : start.Beside finish point) (hstart : start.Precedes heading point)
    (hfinish : finish.Precedes heading point) : 0 < start.turn finish point := by
  obtain hleft | ⟨hline, hbetween⟩ := hbeside
  · exact hleft
  · have hcross : (Displacement.between start point).cross (.between finish point) = 0 := by
      rw [Displacement.cross_eq]
      simp only [turn, Displacement.between] at hline ⊢
      linarith
    exact absurd (Ahead.dot_pos hstart hfinish hcross) (not_lt.mpr hbetween)

end Beside

/-! ### Turns of a walk -/

section Walk

variable {first second third point : Point ℝ}

/-- Past a left turn, what is to the left of the second way is to the left of the first. -/
theorem turn_pos_of_left (hfirst : first.Precedes heading second)
    (hsecond : second.Precedes heading third) (hthird : third.Precedes heading point)
    (hturn : 0 < first.turn second third) (hleft : 0 < second.turn third point) :
    0 < first.turn second point := by
  rw [turn_eq_cross] at hturn hleft
  have hfar := Ahead.cross_pos_trans hfirst hsecond hthird hturn.le hleft
  calc 0 < (Displacement.between first second).cross (.between second third) +
        (Displacement.between first second).cross (.between third point) := add_pos hturn hfar
    _ = first.turn second point := by
        simp only [turn, Displacement.cross_eq, Displacement.between]
        ring

/-- In front of a left turn, what is to the left of the first way is to the left of the second. -/
theorem turn_pos_of_behind (hfirst : first.Precedes heading second)
    (hsecond : second.Precedes heading third) (hbehind : point.Precedes heading second)
    (hbeside : 0 ≤ first.turn second point) (hturn : 0 < first.turn second third) :
    0 < second.turn third point := by
  have hback : first.turn second point =
      (Displacement.between point second).cross (.between first second) := by
    rw [turn, Displacement.cross_eq, Displacement.between, Displacement.between]
    ring
  rw [hback] at hbeside
  rw [turn_eq_cross] at hturn
  calc 0 < (Displacement.between point second).cross (.between second third) :=
        Ahead.cross_pos_trans hbehind hfirst hsecond hbeside hturn
    _ = second.turn third point := by
        simp only [turn, Displacement.cross_eq, Displacement.between]
        ring

/-- Where the path does not turn left, the short cut has the points beside the first way to its
left. -/
theorem turn_nonneg_of_right (hfirst : first.Precedes heading second)
    (hsecond : second.Precedes heading third) (hpoint : first.Precedes heading point)
    (hturn : first.turn second third ≤ 0) (hbeside : 0 ≤ first.turn second point) :
    0 ≤ first.turn third point := by
  have hright : 0 ≤ (Displacement.between second third).cross (.between first second) := by
    rw [Displacement.cross_comm, ← turn_eq_cross]
    linarith
  have hfar := Ahead.cross_nonneg_trans hsecond hfirst hpoint hright hbeside
  calc 0 ≤ first.turn second point +
        (Displacement.between second third).cross (.between first point) := add_nonneg hbeside hfar
    _ = first.turn third point := by
        simp only [turn, Displacement.cross_eq, Displacement.between]
        ring

end Walk

end Point

end LabelPlacement
