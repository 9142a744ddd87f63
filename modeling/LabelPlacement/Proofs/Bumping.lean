import Mathlib.Analysis.SpecialFunctions.Complex.Arg
import LabelPlacement.Proofs.Bounds
import LabelPlacement.Proofs.Clearance

/-!
# Bumping a candidate aside

A box is pushed away from another one along the axis on which the two overlap less, by as much as
they overlap there. That is far enough where each of them reaches beyond the other at one end. Where
the span of one lies within that of the other, the overlap is the length of the inner one, and the
box gets out only if no more than `separation` is left at the end that it is pushed towards. Boxes
are read along one axis at a time: everything about pushing is said of a `Span`.
-/

namespace LabelPlacement

/-! ### Spans -/

/-- The coordinates that a box takes up along an axis. -/
structure Span where
  low : ℝ
  high : ℝ

namespace Span

variable {span other : Span}

/-- Neither span reaches into the other. -/
def Apart (span other : Span) : Prop := span.high ≤ other.low ∨ other.high ≤ span.low

/-- How much of the two spans is common to them. -/
def overlap (span other : Span) : ℝ := min span.high other.high - max span.low other.low

/-- The middle of the span. -/
noncomputable def centre (span : Span) : ℝ := (span.low + span.high) * 0.5

def moved (span : Span) (amount : ℝ) : Span := ⟨span.low + amount, span.high + amount⟩

theorem moved_zero (span : Span) : span.moved 0 = span := by
  rw [moved, add_zero, add_zero]

/-- How far a span is pushed away from another one. -/
noncomputable def push (span other : Span) : ℝ :=
  awayFrom span.centre other.centre * (span.overlap other + separation)

/-- The span lies within the other one, and more than the separation is left at each end. -/
def WellWithin (span other : Span) : Prop :=
  other.low + separation < span.low ∧ span.high + separation < other.high

/-- One of the spans lies well within the other one. -/
def Nested (span other : Span) : Prop := span.WellWithin other ∨ other.WellWithin span

theorem overlap_pos (hspan : span.low < span.high) (hother : other.low < other.high)
    (hmeet : ¬span.Apart other) : 0 < span.overlap other := by
  rw [Apart, not_or, not_le, not_le] at hmeet
  exact sub_pos.mpr (max_lt (lt_min hspan hmeet.2) (lt_min hmeet.1 hother))

theorem separation_pos : (0 : ℝ) < separation := by
  change (0 : ℝ) < 1e-6
  norm_num

theorem push_of_le (hright : other.centre ≤ span.centre) :
    span.push other = span.overlap other + separation := by
  rw [push, awayFrom, if_pos hright, Scalar.numeral_eq, Nat.cast_one, one_mul]

theorem push_of_lt (hleft : span.centre < other.centre) :
    span.push other = -(span.overlap other + separation) := by
  rw [push, awayFrom, if_neg (not_le.mpr hleft), Scalar.numeral_eq, Nat.cast_one, neg_one_mul]

theorem centre_le_centre : other.centre ≤ span.centre ↔
    other.low + other.high ≤ span.low + span.high := by
  rw [centre, centre]
  exact mul_le_mul_iff_left₀ (by norm_num)

/-- A pushed span is clear of the other one unless one of the two lies well within the other. The
push is towards the nearer end, so the span gets out where no more than the separation is left at
either end. -/
theorem apart_moved_push (hspan : span.low < span.high) (hother : other.low < other.high)
    (hoverlap : 0 < span.overlap other) :
    (span.moved (span.push other)).Apart other ↔ ¬span.Nested other := by
  have hgap := separation_pos
  obtain hright | hleft := le_or_gt other.centre span.centre
  · -- To the right: the high end stays beyond the other span, and the low end has to get there.
    rw [push_of_le hright]
    rw [centre_le_centre] at hright
    simp only [Apart, moved, Nested, WellWithin, overlap] at *
    grind
  · -- To the left: the ends change their parts.
    rw [push_of_lt hleft]
    rw [← not_le, centre_le_centre] at hleft
    simp only [Apart, moved, Nested, WellWithin, overlap] at *
    grind

end Span

/-! ### Boxes -/

namespace Box

variable {box moving fixed : Box ℝ}

/-- What the box takes up along the horizontal axis. -/
def horizontal (box : Box ℝ) : Span := ⟨box.lower.x, box.upper.x⟩

/-- What the box takes up along the vertical axis. -/
def vertical (box : Box ℝ) : Span := ⟨box.lower.y, box.upper.y⟩

/-- The box has an extent along both axes. -/
def IsSolid (box : Box ℝ) : Prop := 0 < box.width ∧ 0 < box.height

theorem isSolid_iff : box.IsSolid ↔ box.lower.x < box.upper.x ∧ box.lower.y < box.upper.y := by
  have hdefined : box.isEmpty = false ↔
      box.lower.x ≤ box.upper.x ∧ box.lower.y ≤ box.upper.y := by
    rw [isEmpty, Bool.or_eq_false_iff, decide_eq_false_iff_not, decide_eq_false_iff_not, not_lt,
      not_lt]
  rw [IsSolid, width, height]
  split
  · rename_i hempty
    constructor
    · rintro ⟨hwidth, -⟩
      rw [Scalar.numeral_eq, Nat.cast_zero] at hwidth
      exact absurd hwidth (lt_irrefl 0)
    · rintro ⟨hwidth, hheight⟩
      rw [hdefined.mpr ⟨hwidth.le, hheight.le⟩] at hempty
      cases hempty
  · rw [sub_pos, sub_pos]

theorem IsSolid.isEmpty_eq (hsolid : box.IsSolid) : box.isEmpty = false := by
  obtain ⟨hwidth, hheight⟩ := isSolid_iff.mp hsolid
  rw [isEmpty, Bool.or_eq_false_iff, decide_eq_false_iff_not, decide_eq_false_iff_not]
  exact ⟨not_lt.mpr hwidth.le, not_lt.mpr hheight.le⟩

theorem intersects_eq_false_iff (hmoving : moving.IsSolid) (hfixed : fixed.IsSolid) :
    moving.intersects fixed = false ↔
      moving.horizontal.Apart fixed.horizontal ∨ moving.vertical.Apart fixed.vertical := by
  simp only [intersects, hmoving.isEmpty_eq, hfixed.isEmpty_eq, Bool.not_false, Bool.true_and,
    Bool.not_eq_false', Bool.or_eq_true, decide_eq_true_eq, Span.Apart, horizontal, vertical,
    or_assoc]

/-- The displacement that pushes a box away from one that it overlaps. -/
theorem minimumDisplacement?_eq (hx : 0 < moving.horizontal.overlap fixed.horizontal)
    (hy : 0 < moving.vertical.overlap fixed.vertical) :
    minimumDisplacement? moving fixed =
      if moving.horizontal.overlap fixed.horizontal ≤ moving.vertical.overlap fixed.vertical then
        some ⟨moving.horizontal.push fixed.horizontal, 0⟩
      else some ⟨0, moving.vertical.push fixed.vertical⟩ := by
  simp only [Span.overlap, horizontal, vertical] at hx hy
  simp only [minimumDisplacement?, Scalar.smaller_eq_min, Scalar.larger_eq_max, Scalar.numeral_eq,
    Nat.cast_zero]
  rw [if_neg (not_or.mpr ⟨not_le.mpr hx, not_le.mpr hy⟩)]
  rfl

theorem horizontal_translated (hsolid : box.IsSolid) (displacement : Displacement ℝ) :
    (box.translated displacement).horizontal = box.horizontal.moved displacement.x := by
  rw [translated, if_neg (by simp [hsolid.isEmpty_eq])]
  rfl

theorem vertical_translated (hsolid : box.IsSolid) (displacement : Displacement ℝ) :
    (box.translated displacement).vertical = box.vertical.moved displacement.y := by
  rw [translated, if_neg (by simp [hsolid.isEmpty_eq])]
  rfl

theorem IsSolid.translated (hsolid : box.IsSolid) (displacement : Displacement ℝ) :
    (box.translated displacement).IsSolid := by
  rw [Box.translated, if_neg (by simp [hsolid.isEmpty_eq]), isSolid_iff]
  obtain ⟨hwidth, hheight⟩ := isSolid_iff.mp hsolid
  exact ⟨add_lt_add_left hwidth _, add_lt_add_left hheight _⟩

/-- Along the axis on which the two boxes overlap less, one of them lies well within the other. -/
def Caught (moving fixed : Box ℝ) : Prop :=
  if moving.horizontal.overlap fixed.horizontal ≤ moving.vertical.overlap fixed.vertical then
    moving.horizontal.Nested fixed.horizontal
  else moving.vertical.Nested fixed.vertical

/-- A box that overlaps another one is pushed along one axis, and it gets clear unless it is
caught. -/
theorem exists_minimumDisplacement (hmoving : moving.IsSolid) (hfixed : fixed.IsSolid)
    (hintersects : moving.intersects fixed = true) :
    ∃ displacement, minimumDisplacement? moving fixed = some displacement ∧
      (displacement.x = 0 ∨ displacement.y = 0) ∧
      ((moving.translated displacement).intersects fixed = false ↔ ¬moving.Caught fixed) := by
  have hmeet : ¬(moving.horizontal.Apart fixed.horizontal ∨
      moving.vertical.Apart fixed.vertical) := by
    rw [← intersects_eq_false_iff hmoving hfixed, hintersects]
    nofun
  obtain ⟨hmeetX, hmeetY⟩ := not_or.mp hmeet
  obtain ⟨hwidth, hheight⟩ := isSolid_iff.mp hmoving
  obtain ⟨hwidth', hheight'⟩ := isSolid_iff.mp hfixed
  have hx := Span.overlap_pos hwidth hwidth' hmeetX
  have hy := Span.overlap_pos hheight hheight' hmeetY
  rw [minimumDisplacement?_eq hx hy, Caught]
  split
  · refine ⟨_, rfl, Or.inr rfl, ?_⟩
    rw [intersects_eq_false_iff (hmoving.translated _) hfixed, horizontal_translated hmoving,
      vertical_translated hmoving, Span.moved_zero, or_iff_left hmeetY]
    exact Span.apart_moved_push hwidth hwidth' hx
  · refine ⟨_, rfl, Or.inl rfl, ?_⟩
    rw [intersects_eq_false_iff (hmoving.translated _) hfixed, horizontal_translated hmoving,
      vertical_translated hmoving, Span.moved_zero, or_iff_right hmeetX]
    exact Span.apart_moved_push hheight hheight' hy

end Box

/-! ### Candidates -/

theorem Corners.toList_ofCenter_translate (centre : Point ℝ) (displacement : Displacement ℝ)
    (width height : ℝ) (rotation : Rotation ℝ) :
    (Corners.ofCenter (centre.translate displacement) width height rotation).toList =
      (Corners.ofCenter centre width height rotation).toList.map (·.translate displacement) := by
  have hcorner (x y : ℝ) :
      (⟨(centre.translate displacement).x + x, (centre.translate displacement).y + y⟩ :
        Point ℝ).rotateAbout (centre.translate displacement) rotation =
      ((⟨centre.x + x, centre.y + y⟩ : Point ℝ).rotateAbout centre rotation).translate
        displacement := by
    simp only [Point.rotateAbout, Point.translate, Displacement.between, Displacement.rotate,
      Point.mk.injEq]
    constructor <;> ring
  simp only [Corners.toList, Corners.ofCenter, hcorner, List.map_cons, List.map_nil]

/-- The lower and the left side of a turned rectangle. -/
theorem Corners.sides_ofCenter (centre : Point ℝ) (width height : ℝ) (rotation : Rotation ℝ) :
    let corners := Corners.ofCenter centre width height rotation
    Displacement.between corners.lowerLeft corners.lowerRight =
        ⟨rotation.cos * width, rotation.sin * width⟩ ∧
      Displacement.between corners.lowerLeft corners.upperLeft =
        ⟨-(rotation.sin * height), rotation.cos * height⟩ := by
  simp only [Corners.ofCenter, Point.rotateAbout, Point.translate, Displacement.between,
    Displacement.rotate, Displacement.mk.injEq]
  refine ⟨⟨?_, ?_⟩, ?_, ?_⟩ <;> ring

namespace Candidate

theorem bounds_translated (centre : Point ℝ) (width height angle : ℝ)
    (displacement : Displacement ℝ) :
    ((create centre width height angle).translated displacement).bounds =
      (create centre width height angle).bounds.translated displacement := by
  simp only [translated, create, Box.translated_ofPoints, Corners.toList_ofCenter_translate]

/-- The box around a rectangle that has an extent has one, however the rectangle is turned. -/
theorem isSolid_bounds (centre : Point ℝ) {width height : ℝ} (hwidth : 0 < width)
    (hheight : 0 < height) (angle : ℝ) : (create centre width height angle).bounds.IsSolid := by
  set rotation : Rotation ℝ := .ofAngle angle with hrotation
  set corners := Corners.ofCenter centre width height rotation with hcorners
  change (Box.ofPoints corners.toList).IsSolid
  have hturned : rotation.cos = 0 → rotation.sin ≠ 0 := by
    intro hcos hsin
    have hunit : rotation.cos ^ 2 + rotation.sin ^ 2 = 1 := Real.cos_sq_add_sin_sq _
    rw [hcos, hsin] at hunit
    norm_num at hunit
  have hheld : ∀ corner ∈ corners.toList, (Box.ofPoints corners.toList).Holds corner :=
    fun corner hmem => Box.holds_ofPoints hmem
  have hlowerLeft := hheld corners.lowerLeft (by simp [Corners.toList])
  have hlowerRight := hheld corners.lowerRight (by simp [Corners.toList])
  have hupperLeft := hheld corners.upperLeft (by simp [Corners.toList])
  obtain ⟨hbase, hside⟩ := Corners.sides_ofCenter centre width height rotation
  obtain ⟨hbaseX, hbaseY⟩ := Displacement.mk.inj hbase
  obtain ⟨hsideX, hsideY⟩ := Displacement.mk.inj hside
  -- A flat box would have both sides of the rectangle at a right angle to it.
  refine Box.isSolid_iff.mpr ⟨lt_of_not_ge fun hflat => ?_, lt_of_not_ge fun hflat => ?_⟩
  · have hcos : rotation.cos * width = 0 := by
      linarith [hlowerLeft.left, hlowerLeft.right, hlowerRight.left, hlowerRight.right]
    have hsin : rotation.sin * height = 0 := by
      linarith [hlowerLeft.left, hlowerLeft.right, hupperLeft.left, hupperLeft.right]
    exact hturned ((mul_eq_zero.mp hcos).resolve_right hwidth.ne')
      ((mul_eq_zero.mp hsin).resolve_right hheight.ne')
  · have hsin : rotation.sin * width = 0 := by
      linarith [hlowerLeft.below, hlowerLeft.above, hlowerRight.below, hlowerRight.above]
    have hcos : rotation.cos * height = 0 := by
      linarith [hlowerLeft.below, hlowerLeft.above, hupperLeft.below, hupperLeft.above]
    exact hturned ((mul_eq_zero.mp hcos).resolve_right hheight.ne')
      ((mul_eq_zero.mp hsin).resolve_right hwidth.ne')

end Candidate

/-! ### Bumping -/

section
variable {α : Type} [Scalar α] [LawfulScalar α]

/-- Where a single label is on the map, it is in the way or nothing is. -/
theorem Run.conflicts_of_single {run : Run α} {other : Nat} {bounds : Box α}
    (hindex : run.workspace.index.entries = [⟨.label other, bounds⟩])
    (hother : other ≠ run.request.id) (box : Box α) :
    run.conflicts box =
      if (box.expanded (run.clearance .label)).intersects bounds then [⟨.label other, bounds⟩]
      else [] := by
  rw [conflicts, SpatialIndex.query, hindex]
  split
  · rename_i hway
    have hreached := Box.intersects_expanded_of_le (run.clearance_nonneg .label)
      (run.clearance_le_reach .label) hway
    simp [hreached, isInTheWay, hother, hway]
  · rename_i hfree
    refine List.filter_eq_nil_iff.mpr fun entry hmem => ?_
    rw [List.mem_singleton.mp (List.mem_filter.mp hmem).1]
    simp [isInTheWay, hfree]

end

namespace Box

variable {box : Box ℝ}

theorem IsSolid.expanded_eq (hsolid : box.IsSolid) {margin : ℝ} (hmargin : 0 ≤ margin) :
    box.expanded margin = box.grown margin :=
  expanded_of_nonneg hsolid.isEmpty_eq (by rwa [Scalar.numeral_eq, Nat.cast_zero])

theorem IsSolid.expanded (hsolid : box.IsSolid) {margin : ℝ} (hmargin : 0 ≤ margin) :
    (box.expanded margin).IsSolid := by
  obtain ⟨hwidth, hheight⟩ := isSolid_iff.mp hsolid
  rw [hsolid.expanded_eq hmargin, isSolid_iff]
  simp only [grown]
  exact ⟨by linarith, by linarith⟩

theorem expanded_translated (hsolid : box.IsSolid) {margin : ℝ} (hmargin : 0 ≤ margin)
    (displacement : Displacement ℝ) :
    (box.translated displacement).expanded margin =
      (box.expanded margin).translated displacement := by
  rw [(hsolid.translated displacement).expanded_eq hmargin, translated, translated,
    if_neg (by simp [hsolid.isEmpty_eq]), if_neg (by simp [(hsolid.expanded hmargin).isEmpty_eq]),
    hsolid.expanded_eq hmargin]
  simp only [grown, Point.translate, mk.injEq, Point.mk.injEq]
  refine ⟨⟨?_, ?_⟩, ?_, ?_⟩ <;> ring

end Box

theorem Run.clearance_label_nonneg (run : Run ℝ) : (0 : ℝ) ≤ run.clearance .label := by
  simpa only [Scalar.numeral_eq, Nat.cast_zero] using run.clearance_nonneg .label

/-- Where bumping is allowed and a single label is on the map, a candidate finds a place just when
the label is not within its clearance, or does not catch it. -/
theorem Run.isSome_resolve?_iff {run : Run ℝ} {other : Nat} {bounds : Box ℝ}
    (hbump : run.relaxations.bump = true)
    (hindex : run.workspace.index.entries = [⟨.label other, bounds⟩])
    (hother : other ≠ run.request.id) (hbounds : bounds.IsSolid) (centre : Point ℝ)
    {width height : ℝ} (hwidth : 0 < width) (hheight : 0 < height) (angle : ℝ) :
    let candidate := Candidate.create centre width height angle
    let grown := candidate.bounds.expanded (run.clearance .label)
    (run.resolve? candidate).isSome = true ↔
      (grown.intersects bounds = true → ¬grown.Caught bounds) := by
  intro candidate grown
  have hsolid := Candidate.isSolid_bounds centre hwidth hheight angle
  have hfound : run.conflicts candidate.bounds =
      if grown.intersects bounds then [⟨.label other, bounds⟩] else [] :=
    conflicts_of_single hindex hother candidate.bounds
  have hmoved (displacement : Displacement ℝ) :
      run.conflicts (candidate.translated displacement).bounds =
        if (grown.translated displacement).intersects bounds then [⟨.label other, bounds⟩]
        else [] := by
    rw [conflicts_of_single hindex hother, Candidate.bounds_translated,
      Box.expanded_translated hsolid run.clearance_label_nonneg]
  have hgrown : candidate.bounds.expanded (run.clearance .label) = grown := rfl
  rw [resolve?, hfound, hgrown]
  by_cases hway : grown.intersects bounds = true
  -- The candidate is tried once more where the push has taken it.
  · obtain ⟨displacement, hdisplacement, -, hclear⟩ := Box.exists_minimumDisplacement
      (hsolid.expanded run.clearance_label_nonneg) hbounds hway
    simp only [hway, if_true, hbump, true_implies]
    rw [← hclear, hdisplacement]
    simp only [hmoved]
    cases (grown.translated displacement).intersects bounds <;> simp
  · simp [hway]

/-- A box that overlaps another one is pushed along one axis, and it gets clear unless it is caught.
So a candidate for which bumping is allowed finds a place beside the only label on the map unless
the label catches it. -/
theorem bumping_clears_label {label : Box ℝ} (hlabel : label.IsSolid) :
    (∀ moving : Box ℝ, moving.IsSolid → moving.intersects label = true →
      ∃ displacement, minimumDisplacement? moving label = some displacement ∧
        (displacement.x = 0 ∨ displacement.y = 0) ∧
        ((moving.translated displacement).intersects label = false ↔ ¬moving.Caught label)) ∧
    (∀ (run : Run ℝ) (other : Nat) (centre : Point ℝ) (width height angle : ℝ),
      run.relaxations.bump = true → run.workspace.index.entries = [⟨.label other, label⟩] →
      other ≠ run.request.id → 0 < width → 0 < height →
      let candidate := Candidate.create centre width height angle
      let grown := candidate.bounds.expanded (run.clearance .label)
      ((run.resolve? candidate).isSome = true ↔
        (grown.intersects label = true → ¬grown.Caught label))) := by
  refine ⟨fun moving hmoving => Box.exists_minimumDisplacement hmoving hlabel, ?_⟩
  intro run other centre width height angle hbump hindex hother hwidth hheight
  exact run.isSome_resolve?_iff hbump hindex hother hlabel centre hwidth hheight angle

/-- A label that reaches over the right side of a candidate pushes it to the left. -/
theorem bumped_candidate_gets_clear :
    let label : Box ℝ := ⟨⟨3, -5⟩, ⟨8, 5⟩⟩
    let town : Request ℝ := .create 1 1 "town" (.point ⟨0, 0⟩) (.single "Ab") ⟨10, ⟨0, 0⟩⟩
    let run : Run ℝ :=
      { Run.start { Workspace.empty .standard with index := ⟨[⟨.label 9, label⟩]⟩ } town with
        relaxations := { Relaxations.none with bump := true } }
    let candidate := Candidate.create ⟨0, 0⟩ 8 2 0
    candidate.bounds.intersects label = true ∧ (run.resolve? candidate).isSome = true ∧
      ∃ displacement, minimumDisplacement? candidate.bounds label = some displacement ∧
        (candidate.bounds.translated displacement).intersects label = false := by
  intro label town run candidate
  have hrotation : Rotation.ofAngle (0 : ℝ) = ⟨1, 0⟩ := by
    simpa only [Nat.cast_zero] using ofAngle_zero
  have hcorners : candidate.corners.toList = [⟨-4, -1⟩, ⟨4, -1⟩, ⟨4, 1⟩, ⟨-4, 1⟩] := by
    simp only [candidate, Candidate.create, hrotation, Corners.toList, Corners.ofCenter,
      Point.rotateAbout, Point.translate, Displacement.between, Displacement.rotate]
    norm_num
  have hbounds : candidate.bounds = ⟨⟨-4, -1⟩, ⟨4, 1⟩⟩ := by
    symm
    change _ = Box.ofPoints candidate.corners.toList
    rw [hcorners]
    apply Box.Fits.eq_ofPoints
    refine ⟨fun corner hmem => ?_, ⟨⟨-4, -1⟩, by simp, rfl⟩, ⟨⟨4, 1⟩, by simp, rfl⟩,
      ⟨⟨-4, -1⟩, by simp, rfl⟩, ⟨⟨4, 1⟩, by simp, rfl⟩⟩
    simp only [List.mem_cons, List.not_mem_nil, or_false] at hmem
    obtain rfl | rfl | rfl | rfl := hmem <;> constructor <;> norm_num
  have hsolid : candidate.bounds.IsSolid :=
    Candidate.isSolid_bounds ⟨0, 0⟩ (by norm_num) (by norm_num) 0
  have hlabel : label.IsSolid := Box.isSolid_iff.mpr (by norm_num [label])
  have hway : candidate.bounds.intersects label = true := by
    rw [← Bool.not_eq_false, Box.intersects_eq_false_iff hsolid hlabel, hbounds]
    norm_num [Span.Apart, Box.horizontal, Box.vertical, label]
  have hfree : ¬candidate.bounds.Caught label := by
    have hgap := Span.separation_pos
    rw [hbounds, Box.Caught]
    norm_num [Span.overlap, Span.Nested, Span.WellWithin, Box.horizontal, Box.vertical, label]
    exact ⟨fun _ => by linarith, fun _ => by linarith⟩
  have hclearance : run.clearance .label = (0 : ℝ) := by
    rw [Run.clearance, Scalar.larger_eq_max, Scalar.numeral_eq, Nat.cast_zero]
    exact max_self 0
  have hgrown : candidate.bounds.expanded (run.clearance .label) = candidate.bounds := by
    rw [hclearance, hsolid.expanded_eq le_rfl]
    simp only [Box.grown, sub_zero, add_zero]
  obtain ⟨hpush, hresolve⟩ := bumping_clears_label hlabel
  obtain ⟨displacement, hdisplacement, -, hclear⟩ := hpush candidate.bounds hsolid hway
  refine ⟨hway, ?_, displacement, hdisplacement, hclear.mpr hfree⟩
  refine (hresolve run 9 ⟨0, 0⟩ 8 2 0 rfl rfl (by decide) (by norm_num) (by norm_num)).mpr
    fun _ => ?_
  rwa [hgrown]

/-- A tall label that a candidate lies within horizontally catches it: the push is by no more than
the candidate's own width. -/
theorem enclosed_candidate_is_caught :
    let label : Box Rat := ⟨⟨-3, -50⟩, ⟨2, 50⟩⟩
    let town : Request Rat := .create 1 1 "town" (.point ⟨0, 0⟩) (.single "Ab") ⟨10, ⟨0, 0⟩⟩
    let run : Run Rat :=
      { Run.start { Workspace.empty .standard with index := ⟨[⟨.label 9, label⟩]⟩ } town with
        relaxations := { Relaxations.none with bump := true } }
    let candidate := Candidate.create ⟨0, 0⟩ 2 20 0
    candidate.bounds.intersects label = true ∧
      minimumDisplacement? candidate.bounds label = some ⟨2 + separation, 0⟩ ∧
      (candidate.bounds.translated ⟨2 + separation, 0⟩).intersects label = true ∧
      (run.resolve? candidate).isNone = true := by
  decide +kernel

end LabelPlacement
