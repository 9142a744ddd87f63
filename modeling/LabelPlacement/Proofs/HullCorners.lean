import LabelPlacement.Proofs.Extremes
import LabelPlacement.Proofs.Segments

/-!
# The corners of a hull

A hull turns strictly left at each of its points: the ways to a point and on from it are sides, so a
point that did not turn there would be on the way to itself (`Side.turn_pos`). A hull is thus short
only where all points are on one line, and is then made of their ends. It holds a farthest point in
every direction, and that is what looking for the point that lies farthest finds.
-/

namespace LabelPlacement

variable {points hull : List (Point ℝ)}

/-! ### Sides in order -/

theorem isChain_append_singleton_iff {ι : Type} {next : ι → ι → Prop} (first last : ι)
    (walk : List ι) :
    (first :: (walk ++ [last])).IsChain next ↔
      ∀ edge ∈ (first :: walk).zip (walk ++ [last]), next edge.1 edge.2 := by
  induction walk generalizing first with
  | nil => simp
  | cons second rest ih =>
    rw [List.cons_append, List.isChain_cons_cons, ih, List.zip_cons_cons, List.forall_mem_cons]

/-- A closed walk is made of the edges of its points. -/
theorem chain_iff_closedEdges {ι : Type} {next : ι → ι → Prop} (walk : List ι) :
    Cycle.Chain next walk ↔ ∀ edge ∈ closedEdges walk, next edge.1 edge.2 := by
  cases walk with
  | nil => exact ⟨fun _ edge hmem => absurd hmem List.not_mem_nil, fun _ => Cycle.Chain.nil next⟩
  | cons first rest =>
    rw [Cycle.chain_coe_cons, isChain_append_singleton_iff]
    rfl

/-! ### Turns -/

/-- Two sides, one after the other, turn strictly left. -/
theorem Side.turn_pos {first second third : Point ℝ} (hside : Side points first second)
    (hnext : Side points second third) (hends : first ≠ third) : 0 < first.turn second third := by
  have hround : second.turn third first = first.turn second third := by
    rw [Point.turn, Point.turn]
    ring
  by_contra hright
  have hthird := (hside.beside third hnext.finish_mem).resolve_left hright
  have hfirst := (hnext.beside first hside.start_mem).resolve_left (by rwa [hround])
  refine hends (Point.eq_of_squares_nonpos ?_)
  have hsum := add_nonpos hthird.2 hfirst.2
  simp only [Displacement.dot_eq, Displacement.between] at hsum
  linarith

namespace IsHull

/-- Three points of a hull that follow one another turn strictly left. -/
theorem turn_pos (hhull : IsHull points hull) {first second third : Point ℝ}
    {rest : List (Point ℝ)} (hrotated : hull ~r first :: second :: third :: rest) :
    0 < first.turn second third := by
  have hnodup := hrotated.perm.nodup_iff.mp hhull.nodup
  have hsides := hhull.sides
  rw [Cycle.coe_eq_coe.mpr hrotated, Cycle.chain_coe_cons] at hsides
  simp only [List.cons_append, List.isChain_cons_cons] at hsides
  refine hsides.1.turn_pos hsides.2.1 ?_
  rintro rfl
  simp at hnodup

/-- Points are beside every edge of their hull. -/
theorem turn_nonneg (hhull : IsHull points hull) {edge : Point ℝ × Point ℝ}
    (hedge : edge ∈ closedEdges hull) {point : Point ℝ} (hmem : point ∈ points) :
    0 ≤ edge.1.turn edge.2 point :=
  (((chain_iff_closedEdges hull).mp hhull.sides edge hedge).beside point hmem).turn_nonneg

end IsHull

/-! ### Points on one line -/

/-- No three of the points turn off their line. -/
def OnOneLine (points : List (Point ℝ)) : Prop :=
  ∀ first ∈ points, ∀ second ∈ points, ∀ third ∈ points, first.turn second third = 0

/-- The ends of points on one line: none of no points, the only point where there is just one, or
two points with all others on the way between them. -/
def Ends (points : List (Point ℝ)) : List (Point ℝ) → Prop
  | [] => points = []
  | [only] => only ∈ points ∧ ∀ point ∈ points, point = only
  | [one, other] =>
    one ∈ points ∧ other ∈ points ∧ one ≠ other ∧ ∀ point ∈ points, one.IsBetween other point
  | _ => False

theorem Point.turn_eq_zero_of_line {start finish first second third : Point ℝ}
    (hends : start ≠ finish) (hfirst : start.turn finish first = 0)
    (hsecond : start.turn finish second = 0) (hthird : start.turn finish third = 0) :
    first.turn second third = 0 := by
  obtain ⟨share, rfl⟩ := exists_eq_toward hfirst hends
  obtain ⟨other, rfl⟩ := exists_eq_toward hsecond hends
  obtain ⟨more, rfl⟩ := exists_eq_toward hthird hends
  simp only [turn, toward]
  ring

theorem Ends.onOneLine (hends : Ends points hull) : OnOneLine points := by
  intro first hfirst second hsecond third hthird
  match hull with
  | [] => exact absurd hfirst (by rw [show points = [] from hends]; exact List.not_mem_nil)
  | [only] =>
    rw [hends.2 first hfirst, hends.2 second hsecond, Point.turn]
    ring
  | [one, other] =>
    have hline : ∀ point ∈ points, one.turn other point = 0 :=
      fun point hmem => (hends.2.2.2 point hmem).turn_eq_zero
    exact Point.turn_eq_zero_of_line hends.2.2.1 (hline first hfirst) (hline second hsecond)
      (hline third hthird)

namespace IsHull

/-- A hull of fewer than three points is made of the ends of all points. -/
theorem ends (hhull : IsHull points hull) (hshort : hull.length < 3) : Ends points hull := by
  match hull, hhull with
  | [], hhull => exact not_not.mp fun hpoints => hhull.nonempty hpoints rfl
  | [only], hhull =>
    have hside : Side points only only := by simpa using hhull.sides
    refine ⟨hside.start_mem, fun point hmem => ?_⟩
    have hbetween := (hside.beside point hmem).resolve_left (by simp [Point.turn])
    simp only [Displacement.dot_eq, Displacement.between] at hbetween
    exact (Point.eq_of_squares_nonpos hbetween.2).symm
  | [one, other], hhull =>
    have hsides := (Cycle.chain_coe_cons _ _ _).mp hhull.sides
    simp only [List.cons_append, List.nil_append, List.isChain_cons_cons] at hsides
    obtain ⟨hside, hback, -⟩ := hsides
    refine ⟨hside.start_mem, hside.finish_mem, by simpa using hhull.nodup, fun point hmem => ?_⟩
    refine (hside.beside point hmem).isBetween ?_
    have hturn : one.turn other point = -other.turn one point := by
      rw [Point.turn, Point.turn]
      ring
    rw [hturn]
    exact neg_nonpos.mpr (hback.beside point hmem).turn_nonneg
  | first :: second :: third :: rest, _ =>
    simp only [List.length_cons] at hshort
    omega

theorem length_lt_of_onOneLine (hhull : IsHull points hull) (hline : OnOneLine points) :
    hull.length < 3 := by
  match hull, hhull with
  | [], _ | [_], _ | [_, _], _ => simp
  | first :: second :: third :: rest, hhull =>
    have hturn := hhull.turn_pos (List.IsRotated.refl _)
    rw [hline first (hhull.subset (by simp)) second (hhull.subset (by simp)) third
      (hhull.subset (by simp))] at hturn
    exact absurd hturn (lt_irrefl 0)

end IsHull

/-! ### The farthest point -/

/-- Looking for the largest key finds an element of the largest value, where keys compare as the
values do. -/
theorem exists_lastLargest? {ι κ : Type} [Ord κ] {key : ι → κ} {value : ι → ℝ}
    (hcompare : ∀ left right,
      (compare (key left) (key right)).isGT = true ↔ value right < value left)
    {elements : List ι} (hsome : elements ≠ []) :
    ∃ largest ∈ elements, lastLargest? key elements = some largest ∧
      ∀ element ∈ elements, value element ≤ value largest := by
  obtain ⟨first, rest, rfl⟩ := List.exists_cons_of_ne_nil hsome
  induction rest generalizing first with
  | nil =>
    refine ⟨first, List.mem_cons_self, rfl, fun element hmem => ?_⟩
    rw [List.mem_singleton.mp hmem]
  | cons second rest ih =>
    have hstep : lastLargest? key (first :: second :: rest) =
        lastLargest? key
          ((if (compare (key first) (key second)).isGT then first else second) :: rest) := rfl
    rw [hstep]
    split
    · rename_i hlarger
      rw [hcompare] at hlarger
      obtain ⟨largest, hlargest, hfound, hall⟩ := ih first (List.cons_ne_nil _ _)
      refine ⟨largest, by grind, hfound, fun element hmem => ?_⟩
      obtain rfl | rfl | hmem := List.mem_cons.mp hmem |>.imp_right List.mem_cons.mp
      · exact hall element List.mem_cons_self
      · exact hlarger.le.trans (hall first List.mem_cons_self)
      · exact hall element (List.mem_cons_of_mem _ hmem)
    · rename_i hsmaller
      rw [hcompare, not_lt] at hsmaller
      obtain ⟨largest, hlargest, hfound, hall⟩ := ih second (List.cons_ne_nil _ _)
      refine ⟨largest, List.mem_cons_of_mem _ hlargest, hfound, fun element hmem => ?_⟩
      obtain rfl | hmem := List.mem_cons.mp hmem
      · exact hsmaller.trans (hall second List.mem_cons_self)
      · exact hall element hmem

theorem Point.reach_eq (direction : Displacement ℝ) (point : Point ℝ) :
    point.reach direction = some (point.fromOrigin.dot direction) := by
  rw [reach, Scalar.rank, if_pos]
  rw [Bool.or_eq_true]
  exact Or.inl (beq_self_eq_true (point.fromOrigin.dot direction))

/-- **The farthest point.** Of some points, one that lies farthest in a direction is found. -/
theorem exists_supportPoint? (hpoints : points ≠ []) (direction : Displacement ℝ) :
    ∃ far ∈ points, supportPoint? points direction = some far ∧
      ∀ point ∈ points, point.fromOrigin.dot direction ≤ far.fromOrigin.dot direction := by
  refine exists_lastLargest? (fun left right => ?_) hpoints
  rw [Point.reach_eq, Point.reach_eq, ← compare_gt_iff_gt]
  change (compare (left.fromOrigin.dot direction) (right.fromOrigin.dot direction)).isGT = true ↔ _
  cases compare (left.fromOrigin.dot direction) (right.fromOrigin.dot direction) <;> simp

/-- The farthest point of a hull is one of the farthest of all points. -/
theorem IsHull.exists_supportPoint? (hhull : IsHull points hull) (hpoints : points ≠ [])
    (direction : Displacement ℝ) :
    ∃ far ∈ hull, supportPoint? hull direction = some far ∧
      ∀ point ∈ points, point.fromOrigin.dot direction ≤ far.fromOrigin.dot direction := by
  obtain ⟨far, hfar, hfound, hall⟩ :=
    LabelPlacement.exists_supportPoint? (hhull.nonempty hpoints) direction
  refine ⟨far, hfar, hfound, fun point hmem => ?_⟩
  by_cases hheading : 0 < direction.dot direction
  · obtain ⟨corner, hcorner, hahead⟩ := hhull.exists_far hheading hmem
    have hnear : point.fromOrigin.dot direction ≤ corner.fromOrigin.dot direction := by
      simp only [Displacement.dot_eq, Displacement.between, Point.fromOrigin] at hahead ⊢
      linarith
    exact hnear.trans (hall corner hcorner)
  · -- Without a direction, all points lie equally far.
    have hnone : (0 : ℝ) = direction.x ∧ (0 : ℝ) = direction.y := by
      have hsame : (⟨0, 0⟩ : Point ℝ) = ⟨direction.x, direction.y⟩ := by
        refine Point.eq_of_squares_nonpos ?_
        simpa [Displacement.dot_eq] using not_lt.mp hheading
      exact Point.mk.inj hsame
    rw [Displacement.dot_eq, Displacement.dot_eq, ← hnone.1, ← hnone.2]
    simp

/-! ### Hulls as they are computed -/

/-- **Convex hulls.** The convex hull of points is made of some of them, each once. Unless all
points are on one line, it has three points or more, and three that follow one another turn strictly
left; on one line, it is made of the ends. All points are to the left of its edges or on them, and
its farthest point in a direction is one of the farthest of all points. -/
theorem convexHull_surrounds (points : List (Point ℝ)) :
    convexHull points ⊆ points ∧ (convexHull points).Nodup ∧
    (¬OnOneLine points → 3 ≤ (convexHull points).length ∧
      ∀ first second third rest, convexHull points ~r first :: second :: third :: rest →
        0 < first.turn second third) ∧
    (OnOneLine points → Ends points (convexHull points)) ∧
    (∀ edge ∈ closedEdges (convexHull points), ∀ point ∈ points,
      0 ≤ edge.1.turn edge.2 point) ∧
    (points ≠ [] → ∀ direction, ∃ far ∈ convexHull points,
      supportPoint? (convexHull points) direction = some far ∧
        ∀ point ∈ points, point.fromOrigin.dot direction ≤ far.fromOrigin.dot direction) := by
  have hhull := isHull_convexHull points
  refine ⟨hhull.subset, hhull.nodup, fun hturned => ⟨?_, ?_⟩, ?_, ?_, ?_⟩
  · by_contra hshort
    exact hturned (hhull.ends (not_le.mp hshort)).onOneLine
  · intro first second third rest hrotated
    exact hhull.turn_pos hrotated
  · intro hline
    exact hhull.ends (hhull.length_lt_of_onOneLine hline)
  · intro edge hedge point hmem
    exact hhull.turn_nonneg hedge hmem
  · intro hpoints direction
    exact hhull.exists_supportPoint? hpoints direction

end LabelPlacement
