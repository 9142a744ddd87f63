import Mathlib.Analysis.SpecialFunctions.Complex.Arg
import LabelPlacement.Placement.Area
import LabelPlacement.Proofs.Rectangles
import LabelPlacement.Proofs.Regions

/-!
# Labels inside and outside areas

A label of an area is accepted by its corners and by the vertices of the area. As long as no edge of
the area meets the inside of the label, all points in there are inside the area or all are outside,
and one of the corners tells which (`Corners.exists_corner`). As no vertex lies in the label, an
edge that does meet it leads right through, and then the label has points on both sides.
-/

open Filter Topology

namespace LabelPlacement

/-! ### The inside of a rectangle -/

theorem LexPos.eventually_pos {first second : ℝ} (hpos : LexPos first second) :
    ∀ᶠ step in 𝓝[>] (0 : ℝ), 0 < first * step + second * (step * step) := by
  obtain hfirst | ⟨hfirst, hsecond⟩ := hpos
  · have hcontinuous : ContinuousAt (fun step : ℝ => first + second * step) 0 := by fun_prop
    have hnear : ∀ᶠ step in 𝓝[>] (0 : ℝ), 0 < first + second * step :=
      (continuousAt_const.eventually_lt hcontinuous (by simpa using hfirst)).filter_mono
        nhdsWithin_le_nhds
    filter_upwards [hnear, self_mem_nhdsWithin] with step hnear hstep
    have hproduct := mul_pos (Set.mem_Ioi.mp hstep) hnear
    linarith
  · filter_upwards [self_mem_nhdsWithin] with step hstep
    rw [hfirst, zero_mul, zero_add]
    exact mul_pos hsecond (mul_pos hstep hstep)

theorem Rotation.IsUnit.cos_or_sin {rotation : Rotation ℝ} (hunit : rotation.IsUnit) :
    rotation.cos ≠ 0 ∨ rotation.sin ≠ 0 := by
  unfold Rotation.IsUnit at hunit
  by_contra hnone
  push Not at hnone
  rw [hnone.1, hnone.2] at hunit
  norm_num at hunit

/-- From one of the two ends of a side, small steps lead along it and not away from it. -/
theorem exists_inward {length : ℝ} (first second : ℝ) (hlength : 0 < length)
    (hsome : first ≠ 0 ∨ second ≠ 0) :
    ∃ sign : ℝ, (sign = 1 ∨ sign = -1) ∧ ∀ᶠ step in 𝓝[>] (0 : ℝ),
      |sign * (length / 2) + (first * step + second * (step * step))| < length / 2 := by
  have hshort : ∀ᶠ step in 𝓝[>] (0 : ℝ), |first * step + second * (step * step)| < length := by
    have hcontinuous :
        ContinuousAt (fun step : ℝ => |first * step + second * (step * step)|) 0 := by fun_prop
    exact (hcontinuous.eventually_lt continuousAt_const (by simpa using hlength)).filter_mono
      nhdsWithin_le_nhds
  have hahead : LexPos first second ∨ LexPos (-first) (-second) := by
    unfold LexPos
    grind
  obtain hahead | hback := hahead
  · refine ⟨-1, Or.inr rfl, ?_⟩
    filter_upwards [hshort, hahead.eventually_pos] with step hshort hpos
    rw [abs_lt] at hshort ⊢
    constructor <;> linarith
  · refine ⟨1, Or.inl rfl, ?_⟩
    filter_upwards [hshort, hback.eventually_pos] with step hshort hpos
    rw [abs_lt] at hshort ⊢
    constructor <;> linarith

namespace Corners

variable {centre point : Point ℝ} {width height : ℝ} {rotation : Rotation ℝ}

theorem exists_inward_corner (centre : Point ℝ) (hunit : rotation.IsUnit) (hwidth : 0 < width)
    (hheight : 0 < height) :
    ∃ corner ∈ (ofCenter centre width height rotation).toList, ∀ᶠ step in 𝓝[>] (0 : ℝ),
      (ofCenter centre width height rotation).HoldsInside (corner.nudged step) := by
  have hsome := hunit.cos_or_sin
  obtain ⟨side, hside, hacross⟩ := exists_inward rotation.cos rotation.sin hwidth hsome
  obtain ⟨level, hlevel, hup⟩ := exists_inward (-rotation.sin) rotation.cos hheight
    (hsome.symm.imp_left neg_ne_zero.mpr)
  refine ⟨centre.aside rotation (side * (width / 2)) (level * (height / 2)), ?_, ?_⟩
  · rw [toList_ofCenter_eq]
    obtain rfl | rfl := hside <;> obtain rfl | rfl := hlevel <;> simp
  · filter_upwards [hacross, hup] with step hacross hup
    rw [holdsInside_iff hunit hwidth.le hheight.le]
    refine ⟨_, _, hacross, hup, ?_⟩
    unfold Rotation.IsUnit at hunit
    refine Point.ext ?_ ?_
    · simp only [Point.nudged, Point.aside, Point.translate, Displacement.rotate]
      linear_combination -step * hunit
    · simp only [Point.nudged, Point.aside, Point.translate, Displacement.rotate]
      linear_combination -(step * step) * hunit

theorem HoldsInside.between {corners : Corners ℝ} {other between : Point ℝ}
    (hpoint : corners.HoldsInside point) (hother : corners.HoldsInside other)
    (hbetween : point.IsBetween other between) : corners.HoldsInside between := by
  intro side hside
  exact hbetween.turn_pos (hpoint side hside) (hother side hside)

/-- Close to a point inside a rectangle, all points are. -/
theorem HoldsInside.eventually {corners : Corners ℝ} (hinside : corners.HoldsInside point) :
    ∀ᶠ step in 𝓝[>] (0 : ℝ), ∀ near, point.Near step near → corners.HoldsInside near := by
  have hsides : ∀ᶠ step in 𝓝[>] (0 : ℝ), ∀ side ∈ {side | side ∈ closedEdges corners.toList},
      ∀ near, point.Near step near → 0 < side.1.turn side.2 near := by
    refine (eventually_all_finite (closedEdges corners.toList).finite_toSet).mpr
      fun side hside => ?_
    have hcontinuous : ContinuousAt
        (fun step : ℝ => step * (|side.2.x - side.1.x| + |side.2.y - side.1.y|)) 0 := by fun_prop
    have hsmall : ∀ᶠ step in 𝓝[>] (0 : ℝ),
        step * (|side.2.x - side.1.x| + |side.2.y - side.1.y|) < side.1.turn side.2 point :=
      (hcontinuous.eventually_lt continuousAt_const (by simpa using hinside side hside)).filter_mono
        nhdsWithin_le_nhds
    filter_upwards [hsmall] with step hsmall near hnear
    have hturn : side.1.turn side.2 near = side.1.turn side.2 point +
        ((side.2.x - side.1.x) * (near.y - point.y) -
          (side.2.y - side.1.y) * (near.x - point.x)) := by
      simp only [Point.turn]
      ring
    have hchange : |(side.2.x - side.1.x) * (near.y - point.y) -
        (side.2.y - side.1.y) * (near.x - point.x)| ≤
          step * (|side.2.x - side.1.x| + |side.2.y - side.1.y|) := by
      refine (abs_sub _ _).trans ?_
      rw [abs_mul, abs_mul]
      have hx := mul_le_mul_of_nonneg_left hnear.1 (abs_nonneg (side.2.y - side.1.y))
      have hy := mul_le_mul_of_nonneg_left hnear.2 (abs_nonneg (side.2.x - side.1.x))
      linarith
    rw [hturn]
    linarith [neg_abs_le ((side.2.x - side.1.x) * (near.y - point.y) -
      (side.2.y - side.1.y) * (near.x - point.x))]
  exact hsides.mono fun step hsides near hnear side hside => hsides side hside near hnear

/-! ### The corners and the inside -/

/-- Where no edge of a polygon meets the inside of a rectangle, one of the corners tells whether all
of it is in the polygon. -/
theorem exists_corner {polygon : Polygon ℝ} (hunit : rotation.IsUnit) (hwidth : 0 < width)
    (hheight : 0 < height)
    (hunmet : ∀ point, (ofCenter centre width height rotation).HoldsInside point →
      ¬polygon.Boundary point) :
    ∃ corner ∈ (ofCenter centre width height rotation).toList,
      ∀ point, (ofCenter centre width height rotation).HoldsInside point →
        polygon.crossesOddly point = polygon.crossesOddly corner := by
  obtain ⟨corner, hcorner, hinward⟩ := exists_inward_corner centre hunit hwidth hheight
  obtain ⟨step, hinner, hsame⟩ :=
    (hinward.and (polygon.eventually_crossesOddly_nudged corner)).exists
  refine ⟨corner, hcorner, fun point hpoint => ?_⟩
  rw [← hsame]
  exact Polygon.crossesOddly_eq_of_clear fun between hbetween =>
    hunmet between (hpoint.between hinner hbetween)

/-- A corner of a rectangle around the origin lies farther in a direction than any point inside. -/
theorem exists_farther {first second across up halfWidth halfHeight : ℝ}
    (hsome : first ≠ 0 ∨ second ≠ 0) (hacross : |across| < halfWidth) (hup : |up| < halfHeight) :
    ∃ side level : ℝ, (side = 1 ∨ side = -1) ∧ (level = 1 ∨ level = -1) ∧
      first * across + second * up <
        first * (side * halfWidth) + second * (level * halfHeight) := by
  have hsign : ∀ value : ℝ, ∃ sign : ℝ, (sign = 1 ∨ sign = -1) ∧ value * sign = |value| := by
    intro value
    obtain hpos | hneg := abs_choice value
    · exact ⟨1, Or.inl rfl, by rw [mul_one, hpos]⟩
    · exact ⟨-1, Or.inr rfl, by rw [mul_neg_one, hneg]⟩
  have hless : ∀ (value : ℝ) {aside half : ℝ}, |aside| < half → value * aside ≤ |value| * half ∧
      (value ≠ 0 → value * aside < |value| * half) := by
    intro value aside half haside
    have hle : value * aside ≤ |value| * |aside| := (le_abs_self _).trans (abs_mul _ _).le
    refine ⟨hle.trans (mul_le_mul_of_nonneg_left haside.le (abs_nonneg _)), fun hne => ?_⟩
    exact hle.trans_lt (mul_lt_mul_of_pos_left haside (abs_pos.mpr hne))
  obtain ⟨side, hside, hfirst⟩ := hsign first
  obtain ⟨level, hlevel, hsecond⟩ := hsign second
  refine ⟨side, level, hside, hlevel, ?_⟩
  rw [← mul_assoc, ← mul_assoc, hfirst, hsecond]
  obtain ⟨hacross, hacross'⟩ := hless first hacross
  obtain ⟨hup, hup'⟩ := hless second hup
  obtain hne | hne := hsome
  · exact add_lt_add_of_lt_of_le (hacross' hne) hup
  · exact add_lt_add_of_le_of_lt hacross (hup' hne)

/-- Around a rectangle, the way leads just once up past a height between those of its corners. -/
theorem rises_once (height : ℝ) {first second third fourth : ℝ}
    (hopposite : first + third = second + fourth)
    (habove : height < first ∨ height < second ∨ height < third ∨ height < fourth)
    (hbelow : first < height ∨ second < height ∨ third < height ∨ fourth < height) :
    oddly (fun side : ℝ × ℝ => !decide (height < side.1) && decide (height < side.2))
      (closedEdges [first, second, third, fourth]) = true := by
  simp only [closedEdges, List.cons_append, List.nil_append, List.zip_cons_cons,
    List.zip_nil_right, oddly_cons, oddly_nil]
  by_cases hfirst : height < first <;> by_cases hsecond : height < second <;>
    by_cases hthird : height < third <;> by_cases hfourth : height < fourth <;>
    grind

/-- The outline of a rectangle contains the points inside. -/
theorem contains_of_holdsInside (hunit : rotation.IsUnit) (hwidth : 0 < width)
    (hheight : 0 < height)
    (hinside : (ofCenter centre width height rotation).HoldsInside point) :
    (Polygon.ofVertices (ofCenter centre width height rotation).toList).contains point = true := by
  have hleft : ∀ side ∈ (Polygon.ofVertices (ofCenter centre width height rotation).toList).edges,
      Polygon.crosses point side =
        (!decide (point.y < side.1.y) && decide (point.y < side.2.y)) :=
    fun side hside => Polygon.crosses_of_left (hinside side hside)
  obtain ⟨across, up, hacross, hup, rfl⟩ :=
    (holdsInside_iff hunit hwidth.le hheight.le).mp hinside
  rw [Polygon.contains_ofVertices, Polygon.crossesOddly_eq, oddly_congr hleft, Polygon.edges,
    Polygon.ofVertices, toList_ofCenter_eq]
  have hlevel : ∀ x y : ℝ, (centre.aside rotation x y).y =
      centre.y + (rotation.sin * x + rotation.cos * y) := fun x y => rfl
  have hopposite : (centre.aside rotation (-(width / 2)) (-(height / 2))).y +
        (centre.aside rotation (width / 2) (height / 2)).y =
      (centre.aside rotation (width / 2) (-(height / 2))).y +
        (centre.aside rotation (-(width / 2)) (height / 2)).y := by
    rw [hlevel, hlevel, hlevel, hlevel]
    ring
  refine rises_once (centre.aside rotation across up).y hopposite ?_ ?_
  · obtain ⟨side, level, hside, hlevelSign, hfar⟩ :=
      exists_farther hunit.cos_or_sin.symm hacross hup
    simp only [hlevel]
    obtain rfl | rfl := hside <;> obtain rfl | rfl := hlevelSign <;> grind
  · obtain ⟨side, level, hside, hlevelSign, hfar⟩ := exists_farther
      (hunit.cos_or_sin.symm.imp neg_ne_zero.mpr neg_ne_zero.mpr) hacross hup
    simp only [hlevel]
    obtain rfl | rfl := hside <;> obtain rfl | rfl := hlevelSign <;> grind

/-- An edge leads right through a rectangle: it meets the inside, though neither of its ends lies
there. -/
def CutBy (corners : Corners ℝ) (edge : Point ℝ × Point ℝ) : Prop :=
  ¬corners.HoldsInside edge.1 ∧ ¬corners.HoldsInside edge.2 ∧
    ∃ point, edge.1.IsBetween edge.2 point ∧ corners.HoldsInside point

theorem CutBy.exists_sides {corners : Corners ℝ} {polygon : Polygon ℝ} {edge : Point ℝ × Point ℝ}
    (hcut : corners.CutBy edge) (hsimple : polygon.IsSimple) (hedge : edge ∈ polygon.edges) :
    ∃ inner outer, corners.HoldsInside inner ∧ corners.HoldsInside outer ∧
      polygon.Inside inner ∧ polygon.Outside outer := by
  obtain ⟨hstart, hfinish, point, hon, hinside⟩ := hcut
  have hsides := hsimple.exists_sides hedge hon (ne_of_apply_ne corners.HoldsInside (by simp [*]))
    (ne_of_apply_ne corners.HoldsInside (by simp [*]))
  obtain ⟨step, ⟨inner, outer, hinner, houter, hin, hout⟩, hnear⟩ :=
    (hsides.and hinside.eventually).exists
  exact ⟨inner, outer, hnear inner hinner, hnear outer houter, hin, hout⟩

/-- Where no edge leads right through and no vertex lies inside, no edge meets the inside. -/
theorem not_boundary_of_uncut {corners : Corners ℝ} {polygon : Polygon ℝ}
    (huncut : ∀ edge ∈ polygon.edges, ¬corners.CutBy edge)
    (hvertices : ∀ vertex ∈ polygon.vertices, ¬corners.HoldsInside vertex)
    (hinside : corners.HoldsInside point) : ¬polygon.Boundary point := by
  rintro ⟨edge, hedge, hon⟩
  obtain ⟨hstart, hfinish⟩ := Polygon.mem_of_mem_edges hedge
  exact huncut edge hedge ⟨hvertices _ hstart, hvertices _ hfinish, point, hon, hinside⟩

end Corners

/-! ### Accepted labels -/

section

variable {vertices : List (Point ℝ)} {center : Point ℝ} {width height angle : ℝ}
  {strategy : AreaStrategy} {overregion : Bool}

theorem suitsArea_interior_iff {candidate : Candidate ℝ} (hinner : strategy.isInterior = true) :
    suitsArea strategy (.ofVertices vertices) false candidate = true ↔
      (∀ corner ∈ candidate.corners.toList, (Polygon.ofVertices vertices).contains corner = true) ∧
        ∀ vertex ∈ vertices, candidate.outline.contains vertex = false := by
  rw [suitsArea, if_pos hinner, if_neg Bool.false_ne_true, Bool.and_eq_true, List.all_eq_true,
    Bool.not_eq_true', List.any_eq_false]
  exact and_congr_right' (forall₂_congr fun vertex _ => Bool.eq_false_iff.symm)

theorem suitsArea_exterior_iff {candidate : Candidate ℝ} (houter : strategy.isExterior = true) :
    suitsArea strategy (.ofVertices vertices) overregion candidate = true ↔
      (∀ corner ∈ candidate.corners.toList,
          (Polygon.ofVertices vertices).contains corner = false) ∧
        ∀ vertex ∈ vertices, candidate.outline.contains vertex = false := by
  have hinner : ¬strategy.isInterior = true := by
    cases strategy <;> simp_all [AreaStrategy.isExterior, AreaStrategy.isInterior]
  rw [suitsArea, if_neg hinner, if_pos houter, Bool.and_eq_true, Bool.not_eq_true',
    Bool.not_eq_true', List.any_eq_false, List.any_eq_false]
  exact and_congr (forall₂_congr fun corner _ => Bool.eq_false_iff.symm)
    (forall₂_congr fun vertex _ => Bool.eq_false_iff.symm)

/-- A label that contains no vertex and is not cut lies on the side of its corners. -/
theorem crossesOddly_of_uncut (hwidth : 0 < width) (hheight : 0 < height) {answer : Bool}
    (hcorners : ∀ corner ∈ (Candidate.create center width height angle).corners.toList,
      (Polygon.ofVertices vertices).contains corner = answer)
    (hvertices : ∀ vertex ∈ vertices,
      (Candidate.create center width height angle).outline.contains vertex = false)
    (huncut : ∀ edge ∈ (Polygon.ofVertices vertices).edges,
      ¬(Candidate.create center width height angle).corners.CutBy edge) :
    ∀ point, (Candidate.create center width height angle).corners.HoldsInside point →
      (Polygon.ofVertices vertices).crossesOddly point = answer := by
  have hunit := Rotation.isUnit_ofAngle angle
  have hout : ∀ vertex ∈ vertices,
      ¬(Candidate.create center width height angle).corners.HoldsInside vertex := by
    intro vertex hmem hinside
    have hcontained := Corners.contains_of_holdsInside hunit hwidth hheight hinside
    exact Bool.false_ne_true ((hvertices vertex hmem).symm.trans hcontained)
  obtain ⟨corner, hcorner, hsame⟩ := Corners.exists_corner hunit hwidth hheight fun point hinside =>
    Corners.not_boundary_of_uncut huncut hout hinside
  intro point hinside
  rw [hsame point hinside, ← Polygon.contains_ofVertices]
  exact hcorners corner hcorner

/-- **Labels of areas.** A label that is accepted inside a simple area has points outside it just
where an edge of the area leads right through the label, and so does one that is accepted outside
have points inside. -/
theorem accepted_labels_keep_to_side (hsimple : (Polygon.ofVertices vertices).IsSimple)
    (hwidth : 0 < width) (hheight : 0 < height)
    (hsuits : suitsArea strategy (.ofVertices vertices) overregion
      (.create center width height angle) = true) :
    let area := Polygon.ofVertices vertices
    let label := (Candidate.create center width height angle).corners
    (strategy.isInterior = true → overregion = false →
      ((∀ point, label.HoldsInside point → ¬area.Outside point) ↔
        ∀ edge ∈ area.edges, ¬label.CutBy edge)) ∧
    (strategy.isExterior = true →
      ((∀ point, label.HoldsInside point → ¬area.Inside point) ↔
        ∀ edge ∈ area.edges, ¬label.CutBy edge)) := by
  intro area label
  refine ⟨fun hinner hregion => ⟨fun hkept edge hedge hcut => ?_, fun huncut => ?_⟩,
    fun houter => ⟨fun hkept edge hedge hcut => ?_, fun huncut => ?_⟩⟩
  · obtain ⟨-, outer, -, houter, -, hout⟩ := hcut.exists_sides hsimple hedge
    exact hkept outer houter hout
  · subst hregion
    obtain ⟨hcorners, hvertices⟩ := (suitsArea_interior_iff hinner).mp hsuits
    rintro point hinside ⟨-, heven⟩
    have hodd := crossesOddly_of_uncut hwidth hheight hcorners hvertices huncut point hinside
    exact Bool.false_ne_true (heven.symm.trans hodd)
  · obtain ⟨inner, -, hinner, -, hin, -⟩ := hcut.exists_sides hsimple hedge
    exact hkept inner hinner hin
  · obtain ⟨hcorners, hvertices⟩ := (suitsArea_exterior_iff houter).mp hsuits
    rintro point hinside ⟨-, hodd⟩
    have heven := crossesOddly_of_uncut hwidth hheight hcorners hvertices huncut point hinside
    exact Bool.false_ne_true (heven.symm.trans hodd)

end

theorem pond_labels_keep_to_side :
    let pond : List (Point ℝ) := [⟨0, 0⟩, ⟨20, 0⟩, ⟨20, 20⟩, ⟨0, 20⟩]
    let area : Polygon ℝ := .ofVertices pond
    let inner : Candidate ℝ := .create ⟨10, 10⟩ 12 1 0
    let outer : Candidate ℝ := .create ⟨10, 25⟩ 12 1 0
    area.IsSimple ∧
      (suitsArea .interiorHorizontal area false inner = true ∧
        ∀ point, inner.corners.HoldsInside point → ¬area.Outside point) ∧
      (suitsArea .exteriorHorizontal area false outer = true ∧
        ∀ point, outer.corners.HoldsInside point → ¬area.Inside point) := by
  intro pond area inner outer
  have hsimple : area.IsSimple := by
    refine Polygon.isSimple_of_four ?_ ?_ ?_ ?_ ?_ ?_
    · norm_num [Point.turn]
    · norm_num [Point.turn]
    · norm_num [Point.turn]
    · norm_num [Point.turn]
    · intro point hlower
      exact Polygon.not_isBetween_of_left (by norm_num [Point.turn]) (by norm_num [Point.turn])
        hlower
    · intro point hupper
      exact Polygon.not_isBetween_of_left (by norm_num [Point.turn]) (by norm_num [Point.turn])
        hupper
  have hinner : suitsArea .interiorHorizontal area false inner = true := by
    rw [suitsArea_interior_iff rfl, Candidate.outline, Corners.toList_upright]
    constructor
    · norm_num [pond, Polygon.contains_four, Polygon.crosses]
    · norm_num [pond, Polygon.contains_four, Polygon.crosses]
  have houter : suitsArea .exteriorHorizontal area false outer = true := by
    rw [suitsArea_exterior_iff rfl, Candidate.outline, Corners.toList_upright]
    constructor
    · norm_num [pond, Polygon.contains_four, Polygon.crosses]
    · norm_num [pond, Polygon.contains_four, Polygon.crosses]
  have huncut : ∀ level : ℝ, level = 10 ∨ level = 25 → ∀ edge ∈ area.edges,
      ¬(Candidate.create ⟨10, level⟩ 12 1 0).corners.CutBy edge := by
    rintro level hlevel edge hedge ⟨-, -, point, hon, hinside⟩
    obtain ⟨hacross, hup⟩ :=
      (Corners.holdsInside_upright_iff (by norm_num) (by norm_num)).mp hinside
    simp only [abs_lt] at hacross hup
    refine Polygon.not_boundary_of_four ?_ ?_ ?_ ?_ ⟨edge, hedge, hon⟩
    all_goals
      simp only [Point.turn]
      intro hline
      obtain rfl | rfl := hlevel <;> linarith
  refine ⟨hsimple, ⟨hinner, ?_⟩, houter, ?_⟩
  · exact ((accepted_labels_keep_to_side hsimple (by norm_num) (by norm_num) hinner).1 rfl rfl).mpr
      (huncut 10 (Or.inl rfl))
  · exact ((accepted_labels_keep_to_side hsimple (by norm_num) (by norm_num) houter).2 rfl).mpr
      (huncut 25 (Or.inr rfl))

/-- Labels are accepted inside and outside of an area though its edges lead right through. -/
theorem edges_lead_through_accepted_labels :
    let area : Polygon ℝ := .ofVertices [⟨0, -3⟩, ⟨18, 30⟩, ⟨0, 0⟩, ⟨-18, 30⟩]
    let inner : Candidate ℝ := .create ⟨0, 9⟩ 12 1 0
    let outer : Candidate ℝ := .create ⟨12, 20⟩ 4 1 0
    area.IsSimple ∧
      (suitsArea .interiorHorizontal area false inner = true ∧
        inner.corners.HoldsInside ⟨0, 9⟩ ∧ area.Outside ⟨0, 9⟩) ∧
      (suitsArea .exteriorHorizontal area false outer = true ∧
        outer.corners.HoldsInside ⟨61 / 5, 20⟩ ∧ area.Inside ⟨61 / 5, 20⟩) := by
  intro area inner outer
  have hsimple : area.IsSimple := by
    refine Polygon.isSimple_of_four ?_ ?_ ?_ ?_ ?_ ?_
    · norm_num [Point.turn]
    · norm_num [Point.turn]
    · norm_num [Point.turn]
    · norm_num [Point.turn]
    · intro point hlower
      exact Polygon.not_isBetween_of_left (by norm_num [Point.turn]) (by norm_num [Point.turn])
        hlower
    · intro point hupper hback
      exact Polygon.not_isBetween_of_left (by norm_num [Point.turn]) (by norm_num [Point.turn])
        hback hupper
  refine ⟨hsimple, ⟨?_, ?_, ?_, ?_⟩, ⟨?_, ?_, ?_, ?_⟩⟩
  · rw [suitsArea_interior_iff rfl, Candidate.outline, Corners.toList_upright]
    constructor
    · norm_num [Polygon.contains_four, Polygon.crosses]
    · norm_num [Polygon.contains_four, Polygon.crosses]
  · rw [Corners.holdsInside_upright_iff (by norm_num) (by norm_num)]
    norm_num
  · refine Polygon.not_boundary_of_four ?_ ?_ ?_ ?_ <;> norm_num [Point.turn]
  · rw [← Polygon.contains_ofVertices, Polygon.contains_four]
    norm_num [Polygon.crosses]
  · rw [suitsArea_exterior_iff rfl, Candidate.outline, Corners.toList_upright]
    constructor
    · norm_num [Polygon.contains_four, Polygon.crosses]
    · norm_num [Polygon.contains_four, Polygon.crosses]
  · rw [Corners.holdsInside_upright_iff (by norm_num) (by norm_num)]
    norm_num
  · refine Polygon.not_boundary_of_four ?_ ?_ ?_ ?_ <;> norm_num [Point.turn]
  · rw [← Polygon.contains_ofVertices, Polygon.contains_four]
    norm_num [Polygon.crosses]

end LabelPlacement
