import Mathlib.Topology.Order.Compact
import LabelPlacement.Proofs.Parity

/-!
# Inside and outside

A point off the boundary is inside a polygon when a ray from it leaves the polygon an odd number of
times. A way that does not meet the boundary keeps to one of the two (`crossesOddly_eq_of_clear`),
points beyond the bounding box are outside (`holds_of_crossesOddly`), and on the two sides of an
edge of a simple polygon lie its inside and its outside (`IsSimple.exists_sides`).
-/

open Filter Topology

namespace LabelPlacement

/-! ### Nearby points -/

/-- The point a step to the right and a smaller one up. -/
noncomputable def Point.nudged (point : Point ℝ) (step : ℝ) : Point ℝ :=
  ⟨point.x + step, point.y + step * step⟩

/-- The point is no more than a step away along either axis. -/
def Point.Near (step : ℝ) (point other : Point ℝ) : Prop :=
  |other.x - point.x| ≤ step ∧ |other.y - point.y| ≤ step

theorem Point.Near.between {step : ℝ} {point first second other : Point ℝ}
    (hfirst : point.Near step first) (hsecond : point.Near step second)
    (hbetween : first.IsBetween second other) : point.Near step other := by
  have hbox : ∀ other : Point ℝ, point.Near step other ↔
      (⟨⟨point.x - step, point.y - step⟩, ⟨point.x + step, point.y + step⟩⟩ : Box ℝ).Holds
        other := by
    intro other
    rw [Near, abs_le, abs_le]
    constructor
    · rintro ⟨⟨hleft, hright⟩, hbelow, habove⟩
      exact ⟨by linarith, by linarith, by linarith, by linarith⟩
    · rintro ⟨hleft, hright, hbelow, habove⟩
      simp only at hleft hright hbelow habove
      exact ⟨⟨by linarith, by linarith⟩, by linarith, by linarith⟩
  obtain ⟨share, hshare, hone, rfl⟩ := hbetween
  rw [hbox] at hfirst hsecond ⊢
  exact hfirst.toward hsecond ⟨hshare, hone⟩

theorem Point.near_beside (point : Point ℝ) {step aside : ℝ} (haside : |aside| ≤ step) :
    point.Near step ⟨point.x + aside, point.y⟩ := by
  refine ⟨?_, ?_⟩
  · rwa [add_sub_cancel_left]
  · rw [sub_self, abs_zero]
    exact (abs_nonneg aside).trans haside

theorem Point.near_above (point : Point ℝ) {step aside : ℝ} (haside : |aside| ≤ step) :
    point.Near step ⟨point.x, point.y + aside⟩ := by
  refine ⟨?_, ?_⟩
  · rw [sub_self, abs_zero]
    exact (abs_nonneg aside).trans haside
  · rwa [add_sub_cancel_left]

/-- Close to a point, no point lies on a way that it does not lie on. -/
theorem Point.eventually_not_isBetween {start finish point : Point ℝ}
    (hoff : ¬start.IsBetween finish point) :
    ∀ᶠ step in 𝓝[>] (0 : ℝ), ∀ other, point.Near step other → ¬start.IsBetween finish other := by
  let apart (share : ℝ) : ℝ :=
    max |(start.toward finish share).x - point.x| |(start.toward finish share).y - point.y|
  have hcontinuous : ContinuousOn apart (Set.Icc 0 1) := by
    simp only [apart, toward]
    fun_prop
  obtain ⟨nearest, hnearest, hall⟩ :=
    isCompact_Icc.exists_isMinOn (Set.nonempty_Icc.mpr zero_le_one) hcontinuous
  have hpos : 0 < apart nearest := by
    refine lt_of_le_of_ne (le_max_of_le_left (abs_nonneg _)) fun hnone => ?_
    have hx := abs_nonpos_iff.mp ((le_max_left _ _).trans hnone.ge)
    have hy := abs_nonpos_iff.mp ((le_max_right _ _).trans hnone.ge)
    exact hoff ⟨nearest, hnearest.1, hnearest.2,
      Point.ext (sub_eq_zero.mp hx).symm (sub_eq_zero.mp hy).symm⟩
  filter_upwards [Ioo_mem_nhdsGT hpos] with step hstep other hnear
  rintro ⟨share, hshare, hone, rfl⟩
  have hfar : apart nearest ≤ step :=
    (isMinOn_iff.mp hall share ⟨hshare, hone⟩).trans (max_le hnear.1 hnear.2)
  exact not_le.mpr hstep.2 hfar

namespace Polygon

variable {start finish point : Point ℝ} {polygon : Polygon ℝ}

theorem crosses_iff_of_sides (hsides : ¬(point.y < start.y ↔ point.y < finish.y)) :
    crosses point (start, finish) = true ↔
      point.x < start.x +
        (finish.x - start.x) / (finish.y - start.y) * (point.y - start.y) := by
  have hside : (decide (point.y < start.y) != decide (point.y < finish.y)) = true := by
    rw [bne_iff_ne, ne_eq, decide_eq_decide]
    exact hsides
  simp only [crosses, hside, if_true]
  rw [div_mul_eq_mul_div, div_mul_eq_mul_div, mul_comm (point.y - start.y)]
  exact decide_eq_true_iff

/-- From a point on its left, an edge is crossed on its way up. -/
theorem crosses_of_left (hleft : 0 < start.turn finish point) :
    crosses point (start, finish) =
      (!decide (point.y < start.y) && decide (point.y < finish.y)) := by
  by_cases hsame : point.y < start.y ↔ point.y < finish.y
  · rw [crosses_of_same hsame, decide_eq_decide.mpr hsame, Bool.not_and_self]
  · obtain ⟨share, -, hlevel, hcross⟩ := exists_level hsame
    have hturn : start.turn finish point =
        (finish.y - start.y) * ((start.toward finish share).x - point.x) := by
      rw [Point.turn, ← hlevel]
      simp only [Point.toward]
      ring
    rw [hturn] at hleft
    rw [Bool.eq_iff_iff, hcross point rfl, Bool.and_eq_true, Bool.not_eq_true', decide_eq_true_iff,
      decide_eq_false_iff_not]
    constructor
    · intro hbefore
      have hup : 0 < finish.y - start.y := pos_of_mul_pos_left hleft (sub_pos.mpr hbefore).le
      grind
    · rintro ⟨hstart, hfinish⟩
      have hup : 0 ≤ finish.y - start.y := by linarith
      exact sub_pos.mp (pos_of_mul_pos_right hleft hup)

/-- A point nudged by a small step crosses the same edges, even where the point is on the boundary:
the step is larger than what an edge gains to the right on the way up. -/
theorem eventually_crosses_nudged (start finish point : Point ℝ) :
    ∀ᶠ step in 𝓝[>] (0 : ℝ),
      crosses (point.nudged step) (start, finish) = crosses point (start, finish) := by
  have hsmall : ∀ (change : ℝ → ℝ) (bound : ℝ), Continuous change → change 0 < bound →
      ∀ᶠ step in 𝓝[>] (0 : ℝ), change step < bound := by
    intro change bound hcontinuous hlt
    exact (hcontinuous.continuousAt.eventually_lt continuousAt_const hlt).filter_mono
      nhdsWithin_le_nhds
  have hheight : ∀ height : ℝ, ∀ᶠ step in 𝓝[>] (0 : ℝ),
      (point.y + step * step < height ↔ point.y < height) := by
    intro height
    by_cases hlow : point.y < height
    · filter_upwards [hsmall (fun step => point.y + step * step) height (by fun_prop)
        (by simpa using hlow)] with step hstep
      exact iff_of_true hstep hlow
    · refine Eventually.of_forall fun step => iff_of_false (fun hstep => hlow ?_) hlow
      linarith [mul_self_nonneg step]
  set slope := (finish.x - start.x) / (finish.y - start.y) with hslope
  have hreach : ∀ᶠ step in 𝓝[>] (0 : ℝ),
      (point.x + step < start.x + slope * (point.y + step * step - start.y) ↔
        point.x < start.x + slope * (point.y - start.y)) := by
    by_cases hleft : point.x < start.x + slope * (point.y - start.y)
    · filter_upwards [hsmall (fun step => point.x + step - slope * (step * step)) _
        (by fun_prop) (by simpa using hleft)] with step hstep
      refine iff_of_true ?_ hleft
      linarith
    · filter_upwards [hsmall (fun step => slope * step) 1 (by fun_prop)
        (by simp), self_mem_nhdsWithin] with step hstep hpos
      refine iff_of_false (fun hnudged => hleft ?_) hleft
      have hgain : slope * step * step ≤ 1 * step :=
        mul_le_mul_of_nonneg_right hstep.le (Set.mem_Ioi.mp hpos).le
      linarith
  filter_upwards [hheight start.y, hheight finish.y, hreach] with step hstart hfinish hreach
  by_cases hsame : point.y < start.y ↔ point.y < finish.y
  · rw [crosses_of_same hsame]
    exact crosses_of_same (hstart.trans (hsame.trans hfinish.symm))
  · have hsides : ¬((point.nudged step).y < start.y ↔ (point.nudged step).y < finish.y) :=
      fun hnudged => hsame (hstart.symm.trans (hnudged.trans hfinish))
    rw [Bool.eq_iff_iff, crosses_iff_of_sides hsame, crosses_iff_of_sides hsides]
    exact hreach

theorem eventually_crossesOddly_nudged (polygon : Polygon ℝ) (point : Point ℝ) :
    ∀ᶠ step in 𝓝[>] (0 : ℝ),
      polygon.crossesOddly (point.nudged step) = polygon.crossesOddly point := by
  have hedges : ∀ᶠ step in 𝓝[>] (0 : ℝ), ∀ edge ∈ {edge | edge ∈ polygon.edges},
      crosses (point.nudged step) edge = crosses point edge :=
    (eventually_all_finite polygon.edges.finite_toSet).mpr
      fun edge _ => eventually_crosses_nudged edge.1 edge.2 point
  filter_upwards [hedges] with step hsame
  exact oddly_congr hsame

/-! ### Regions -/

/-- The point is inside the polygon, not on its boundary. -/
def Inside (polygon : Polygon ℝ) (point : Point ℝ) : Prop :=
  ¬polygon.Boundary point ∧ polygon.crossesOddly point = true

/-- The point is outside the polygon, not on its boundary. -/
def Outside (polygon : Polygon ℝ) (point : Point ℝ) : Prop :=
  ¬polygon.Boundary point ∧ polygon.crossesOddly point = false

/-- A simple polygon has three vertices or more, all distinct, and two of its edges meet only in
vertices of both. -/
structure IsSimple (polygon : Polygon ℝ) : Prop where
  corners : 3 ≤ polygon.vertices.length
  distinct : polygon.vertices.Nodup
  apart : ∀ edge ∈ polygon.edges, ∀ other ∈ polygon.edges, edge ≠ other → ∀ point,
    edge.1.IsBetween edge.2 point → other.1.IsBetween other.2 point →
      (point = edge.1 ∨ point = edge.2) ∧ (point = other.1 ∨ point = other.2)

theorem IsSimple.nodup_edges (hsimple : polygon.IsSimple) : polygon.edges.Nodup := by
  have hstarts : polygon.edges.map Prod.fst = polygon.vertices := by
    rw [edges]
    cases polygon.vertices with
    | nil => rfl
    | cons first rest => exact List.map_fst_zip (by simp)
  exact List.Nodup.of_map Prod.fst (hstarts ▸ hsimple.distinct)

/-- The number of crossings turns from odd to even, or back, where only one edge changes otherwise
than by the sides of its ends. -/
theorem crossesOddly_ne_of_single (hnodup : polygon.edges.Nodup) {edge : Point ℝ × Point ℝ}
    (hedge : edge ∈ polygon.edges) {first second : Point ℝ} (side : Point ℝ → Bool)
    (hthis : (crosses first edge != crosses second edge) ≠ (side edge.1 != side edge.2))
    (hothers : ∀ other ∈ polygon.edges, other ≠ edge →
      (crosses first other != crosses second other) = (side other.1 != side other.2)) :
    polygon.crossesOddly first ≠ polygon.crossesOddly second := by
  have hodd : oddly (fun other => (crosses first other != crosses second other) !=
      (side other.1 != side other.2)) polygon.edges = true :=
    oddly_of_single hnodup hedge (bne_iff_ne.mpr hthis) fun other hmem hne =>
      bne_eq_false_iff_eq.mpr (hothers other hmem hne)
  have heven : oddly (fun other => side other.1 != side other.2) polygon.edges = false :=
    oddly_closedEdges side polygon.vertices
  rw [oddly_bne, oddly_bne, heven, Bool.bne_false] at hodd
  exact bne_iff_ne.mp hodd

/-! ### The two sides of an edge -/

section

variable {step share : ℝ} {edge : Point ℝ × Point ℝ}

/-- What is between two numbers is beyond just one of them. -/
theorem not_iff_of_within {first last : ℝ} (hshare : 0 < share) (hone : share < 1)
    (hne : first ≠ last) :
    ¬(first + share * (last - first) < first ↔ first + share * (last - first) < last) := by
  obtain hup | hdown := lt_or_gt_of_ne hne
  · exact fun hiff => absurd (hiff.mpr (by nlinarith)) (by nlinarith)
  · exact fun hiff => absurd (hiff.mp (by nlinarith)) (by nlinarith)

/-- An edge that is not level is crossed from the left of its points, and not from the right. -/
theorem crosses_beside (hshare : 0 < share) (hone : share < 1) (hsteep : start.y ≠ finish.y)
    (aside : ℝ) :
    crosses ⟨(start.toward finish share).x + aside, (start.toward finish share).y⟩ (start, finish) =
      decide (aside < 0) := by
  have hrise : finish.y - start.y ≠ 0 := sub_ne_zero.mpr hsteep.symm
  have hiff : crosses ⟨(start.toward finish share).x + aside, (start.toward finish share).y⟩
      (start, finish) = true ↔ (start.toward finish share).x + aside < start.x +
        (finish.x - start.x) / (finish.y - start.y) * ((start.toward finish share).y - start.y) :=
    crosses_iff_of_sides (not_iff_of_within hshare hone hsteep)
  have hlevel : start.x + (finish.x - start.x) / (finish.y - start.y) *
      ((start.toward finish share).y - start.y) = (start.toward finish share).x := by
    simp only [Point.toward]
    field_simp
    ring
  rw [Bool.eq_iff_iff, hiff, hlevel, decide_eq_true_iff]
  exact add_lt_iff_neg_left

/-- The way straight up past a height passes the points of that height that lie on its right. -/
theorem passes_upright {x y : ℝ} {corner : Point ℝ} (hpos : 0 < step) (hlevel : corner.y = y) :
    Point.passes ⟨x, y + -step⟩ ⟨x, y + step⟩ corner = decide (x < corner.x) := by
  rw [Point.passes_of_level (by simp only; linarith) (by simp only; linarith), decide_eq_decide,
    Point.turn]
  constructor <;> intro hlt <;> nlinarith

/-- The points close to a point of an edge are on no other edge. -/
def Alone (polygon : Polygon ℝ) (edge : Point ℝ × Point ℝ) (step : ℝ) (point : Point ℝ) : Prop :=
  ∀ other ∈ polygon.edges, other ≠ edge → ∀ near, point.Near step near →
    ¬other.1.IsBetween other.2 near

theorem Alone.not_boundary (halone : polygon.Alone edge step point) {near : Point ℝ}
    (hnear : point.Near step near) (hoff : edge.1.turn edge.2 near ≠ 0) :
    ¬polygon.Boundary near := by
  rintro ⟨other, hother, hmeets⟩
  by_cases hsame : other = edge
  · rw [hsame] at hmeets
    exact hoff hmeets.turn_eq_zero
  · exact halone other hother hsame near hnear hmeets

/-- To the left of an edge that is not level it is crossed, and to the right it is not. -/
theorem Alone.exists_sides_of_steep (halone : polygon.Alone edge step point)
    (hnodup : polygon.edges.Nodup) (hedge : edge ∈ polygon.edges) (hpos : 0 < step)
    (hshare : 0 < share) (hone : share < 1) (hpoint : point = edge.1.toward edge.2 share)
    (hsteep : edge.1.y ≠ edge.2.y) :
    ∃ first second, point.Near step first ∧ point.Near step second ∧
      ¬polygon.Boundary first ∧ ¬polygon.Boundary second ∧
      polygon.crossesOddly first ≠ polygon.crossesOddly second := by
  obtain ⟨start, finish⟩ := edge
  subst hpoint
  have hoff : ∀ aside : ℝ, aside ≠ 0 → start.turn finish
      ⟨(start.toward finish share).x + aside, (start.toward finish share).y⟩ ≠ 0 := by
    intro aside haside
    have hturn : start.turn finish
        ⟨(start.toward finish share).x + aside, (start.toward finish share).y⟩ =
          (start.y - finish.y) * aside := by
      simp only [Point.turn, Point.toward]
      ring
    rw [hturn]
    exact mul_ne_zero (sub_ne_zero.mpr hsteep) haside
  have hleft := (start.toward finish share).near_beside (abs_neg step ▸ (abs_of_pos hpos).le)
  have hright := (start.toward finish share).near_beside (abs_of_pos hpos).le
  refine ⟨_, _, hleft, hright, halone.not_boundary hleft (hoff _ (neg_ne_zero.mpr hpos.ne')),
    halone.not_boundary hright (hoff _ hpos.ne'), ?_⟩
  refine crossesOddly_ne_of_single hnodup hedge (fun _ => false) ?_ fun other hother hne => ?_
  · rw [crosses_beside hshare hone hsteep, crosses_beside hshare hone hsteep,
      decide_eq_true (neg_lt_zero.mpr hpos), decide_eq_false (not_lt.mpr hpos.le)]
    decide
  · rw [bne_self_eq_false, bne_eq_false_iff_eq]
    exact crosses_eq_of_level rfl fun between hmeets hbetween =>
      halone other hother hne between (hleft.between hright hbetween) hmeets

/-- The way up across a level edge passes just one of its ends on the right. -/
theorem Alone.exists_sides_of_level (halone : polygon.Alone edge step point)
    (hnodup : polygon.edges.Nodup) (hedge : edge ∈ polygon.edges) (hpos : 0 < step)
    (hshare : 0 < share) (hone : share < 1) (hpoint : point = edge.1.toward edge.2 share)
    (hlong : edge.1.x ≠ edge.2.x) (hlevel : edge.1.y = edge.2.y) :
    ∃ first second, point.Near step first ∧ point.Near step second ∧
      ¬polygon.Boundary first ∧ ¬polygon.Boundary second ∧
      polygon.crossesOddly first ≠ polygon.crossesOddly second := by
  obtain ⟨start, finish⟩ := edge
  simp only at hpoint hlong hlevel
  have hheight : start.y = point.y := by
    rw [hpoint, Point.toward, hlevel, sub_self, mul_zero, add_zero]
  have hoff : ∀ aside : ℝ, aside ≠ 0 → start.turn finish ⟨point.x, point.y + aside⟩ ≠ 0 := by
    intro aside haside
    have hturn : start.turn finish ⟨point.x, point.y + aside⟩ = (finish.x - start.x) * aside := by
      rw [Point.turn, ← hlevel, ← hheight]
      ring
    rw [hturn]
    exact mul_ne_zero (sub_ne_zero.mpr hlong.symm) haside
  have hbelow := point.near_above (abs_neg step ▸ (abs_of_pos hpos).le)
  have habove := point.near_above (abs_of_pos hpos).le
  have hup : point.y + -step < point.y + step := by linarith
  refine ⟨_, _, hbelow, habove, halone.not_boundary hbelow (hoff _ (neg_ne_zero.mpr hpos.ne')),
    halone.not_boundary habove (hoff _ hpos.ne'), ?_⟩
  refine crossesOddly_ne_of_single hnodup hedge (Point.passes _ _) ?_ fun other hother hne =>
    crosses_bne_crosses hup fun between hmeets hbetween =>
      halone other hother hne between (hbelow.between habove hbetween) hmeets
  have hsides : (decide (point.x < start.x) != decide (point.x < finish.x)) = true := by
    rw [bne_iff_ne, ne_eq, decide_eq_decide, hpoint]
    exact not_iff_of_within hshare hone hlong
  rw [passes_upright hpos hheight, passes_upright hpos (hlevel.symm.trans hheight), hsides,
    crosses_of_same (by rw [hlevel]), crosses_of_same (by rw [hlevel])]
  decide

end

/-- **Sides.** Close to a point of an edge of a simple polygon other than its ends, there are points
inside and outside. -/
theorem IsSimple.exists_sides (hsimple : polygon.IsSimple) {edge : Point ℝ × Point ℝ}
    (hedge : edge ∈ polygon.edges) (hon : edge.1.IsBetween edge.2 point)
    (hstart : point ≠ edge.1) (hfinish : point ≠ edge.2) :
    ∀ᶠ step in 𝓝[>] (0 : ℝ), ∃ inner outer, point.Near step inner ∧ point.Near step outer ∧
      polygon.Inside inner ∧ polygon.Outside outer := by
  have halone : ∀ᶠ step in 𝓝[>] (0 : ℝ), polygon.Alone edge step point := by
    refine (eventually_all_finite polygon.edges.finite_toSet).mpr fun other hother => ?_
    by_cases hsame : other = edge
    · exact Eventually.of_forall fun _ hne => absurd hsame hne
    · have hoff : ¬other.1.IsBetween other.2 point := by
        intro hmeets
        obtain hend | hend :=
          (hsimple.apart edge hedge other hother (Ne.symm hsame) point hon hmeets).1
        · exact hstart hend
        · exact hfinish hend
      filter_upwards [Point.eventually_not_isBetween hoff] with step hstep _
      exact hstep
  obtain ⟨share, hshare, hone, hpoint⟩ := hon
  have hpositive : 0 < share := by
    refine lt_of_le_of_ne hshare fun hzero => hstart ?_
    rw [hpoint, ← hzero, Point.toward_zero]
  have hless : share < 1 := by
    refine lt_of_le_of_ne hone fun hlast => hfinish ?_
    rw [hpoint, hlast, Point.toward_one]
  filter_upwards [halone, self_mem_nhdsWithin] with step halone hpos
  have hsides : ∃ first second, point.Near step first ∧ point.Near step second ∧
      ¬polygon.Boundary first ∧ ¬polygon.Boundary second ∧
      polygon.crossesOddly first ≠ polygon.crossesOddly second := by
    by_cases hlevel : edge.1.y = edge.2.y
    · have hlong : edge.1.x ≠ edge.2.x := by
        intro hsame
        rw [← Point.ext hsame hlevel] at hpoint
        exact hstart (by simpa [Point.toward] using hpoint)
      exact halone.exists_sides_of_level hsimple.nodup_edges hedge hpos hpositive hless hpoint hlong
        hlevel
    · exact halone.exists_sides_of_steep hsimple.nodup_edges hedge hpos hpositive hless hpoint
        hlevel
  obtain ⟨first, second, hfirst, hsecond, hfirstOff, hsecondOff, hdiffer⟩ := hsides
  cases hodd : polygon.crossesOddly first with
  | true =>
    have heven : polygon.crossesOddly second = false :=
      Bool.eq_false_iff.mpr fun hsame => hdiffer (hodd.trans hsame.symm)
    exact ⟨first, second, hfirst, hsecond, ⟨hfirstOff, hodd⟩, hsecondOff, heven⟩
  | false =>
    have hother : polygon.crossesOddly second = true :=
      Bool.ne_false_iff.mp fun hsame => hdiffer (hodd.trans hsame.symm)
    exact ⟨second, first, hsecond, hfirst, ⟨hsecondOff, hother⟩, hfirstOff, hodd⟩

/-! ### Four corners -/

section

variable {first second third fourth point : Point ℝ}

theorem eq_of_turn_ne_zero (hturn : first.turn second third ≠ 0)
    (hfirst : first.IsBetween second point) (hsecond : second.IsBetween third point) :
    point = second := by
  have hline := hfirst.turn_eq_zero
  obtain ⟨share, -, -, rfl⟩ := hsecond
  have hback : first.turn second second = 0 := (Point.isBetween_finish first second).turn_eq_zero
  rw [Point.turn_toward, hback, mul_zero, zero_add] at hline
  rw [(mul_eq_zero.mp hline).resolve_right hturn, Point.toward_zero]

theorem not_isBetween_of_left (hthird : 0 < first.turn second third)
    (hfourth : 0 < first.turn second fourth) (hedge : first.IsBetween second point) :
    ¬third.IsBetween fourth point :=
  fun hbetween => (hbetween.turn_pos hthird hfourth).ne' hedge.turn_eq_zero

/-- A polygon of four corners, none of them straight, is simple when opposite edges do not meet. -/
theorem isSimple_of_four (hfirst : fourth.turn first second ≠ 0)
    (hsecond : first.turn second third ≠ 0) (hthird : second.turn third fourth ≠ 0)
    (hfourth : third.turn fourth first ≠ 0)
    (hlower : ∀ point, first.IsBetween second point → ¬third.IsBetween fourth point)
    (hupper : ∀ point, second.IsBetween third point → ¬fourth.IsBetween first point) :
    (ofVertices [first, second, third, fourth]).IsSimple := by
  refine ⟨by simp [ofVertices], ?_, ?_⟩
  · have hne : ∀ {start middle finish : Point ℝ}, start.turn middle finish ≠ 0 →
        start ≠ middle ∧ middle ≠ finish ∧ start ≠ finish := by
      intro start middle finish hturn
      refine ⟨?_, ?_, ?_⟩ <;> rintro rfl <;> simp [Point.turn, mul_comm] at hturn
    grind [ofVertices, List.nodup_cons]
  · let apart (edge other : Point ℝ × Point ℝ) : Prop := ∀ point,
      edge.1.IsBetween edge.2 point → other.1.IsBetween other.2 point →
        (point = edge.1 ∨ point = edge.2) ∧ (point = other.1 ∨ point = other.2)
    have : Std.Symm apart :=
      ⟨fun edge other hapart point hother hedge => (hapart point hedge hother).symm⟩
    have hnext : ∀ {start middle finish : Point ℝ}, start.turn middle finish ≠ 0 →
        apart (start, middle) (middle, finish) := by
      intro start middle finish hturn point hedge hother
      have hmeet := eq_of_turn_ne_zero hturn hedge hother
      exact ⟨Or.inr hmeet, Or.inl hmeet⟩
    have hpairs : [(first, second), (second, third), (third, fourth), (fourth, first)].Pairwise
        apart := by
      simp only [List.pairwise_cons, List.forall_mem_cons]
      refine ⟨⟨hnext hsecond, ?_, symm (hnext hfirst), by simp⟩, ⟨hnext hthird, ?_, by simp⟩,
        ⟨hnext hfourth, by simp⟩, by simp⟩
      · exact fun point hedge hother => absurd hother (hlower point hedge)
      · exact fun point hedge hother => absurd hother (hupper point hedge)
    intro edge hedge other hother hne
    exact hpairs.forall hedge hother hne

theorem not_boundary_of_four (hfirst : first.turn second point ≠ 0)
    (hsecond : second.turn third point ≠ 0) (hthird : third.turn fourth point ≠ 0)
    (hfourth : fourth.turn first point ≠ 0) :
    ¬(ofVertices [first, second, third, fourth]).Boundary point := by
  rintro ⟨edge, hedge, hbetween⟩
  change edge ∈ [(first, second), (second, third), (third, fourth), (fourth, first)] at hedge
  simp only [List.mem_cons, List.not_mem_nil, or_false] at hedge
  obtain rfl | rfl | rfl | rfl := hedge
  · exact hfirst hbetween.turn_eq_zero
  · exact hsecond hbetween.turn_eq_zero
  · exact hthird hbetween.turn_eq_zero
  · exact hfourth hbetween.turn_eq_zero

theorem contains_four (first second third fourth point : Point ℝ) :
    (ofVertices [first, second, third, fourth]).contains point =
      (crosses point (first, second) != (crosses point (second, third) !=
        (crosses point (third, fourth) != crosses point (fourth, first)))) := by
  rw [contains_ofVertices, crossesOddly_eq]
  change oddly (crosses point)
    [(first, second), (second, third), (third, fourth), (fourth, first)] = _
  rw [oddly_cons, oddly_cons, oddly_cons, oddly_cons, oddly_nil, Bool.bne_false]

end

end Polygon

end LabelPlacement
