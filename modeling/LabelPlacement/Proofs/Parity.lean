import Mathlib.Analysis.SpecialFunctions.Complex.Arg
import LabelPlacement.Proofs.Bounds
import LabelPlacement.Proofs.HullCorners

/-!
# Crossings

How often a ray crosses a closed chain of points matters only by whether the number is odd. Along a
way that meets no edge, the ray may gain or lose crossings only in pairs: whether an edge is crossed
at the one end but not at the other depends on which of its ends the way has passed on the left
(`crosses_bne_crosses`), and a closed chain leads back to where it began. So the answer stays the
same, and it changes where the way leads through just one edge.
-/

namespace LabelPlacement

/-! ### Odd numbers -/

section Oddly

variable {ι : Type}

/-- Whether an odd number of elements have a property. -/
def oddly (has : ι → Bool) (elements : List ι) : Bool :=
  elements.foldl (fun odd element => odd != has element) false

theorem oddly_nil (has : ι → Bool) : oddly has [] = false := rfl

theorem foldl_bne (has : ι → Bool) (odd : Bool) (elements : List ι) :
    elements.foldl (fun odd element => odd != has element) odd = (odd != oddly has elements) := by
  induction elements generalizing odd with
  | nil => exact (Bool.bne_false odd).symm
  | cons element rest ih =>
    rw [oddly, List.foldl_cons, List.foldl_cons, ih, ih (false != has element), Bool.false_bne,
      Bool.bne_assoc]

theorem oddly_cons (has : ι → Bool) (element : ι) (rest : List ι) :
    oddly has (element :: rest) = (has element != oddly has rest) := by
  rw [oddly, List.foldl_cons, foldl_bne, Bool.false_bne]

theorem oddly_bne (has other : ι → Bool) (elements : List ι) :
    oddly (fun element => has element != other element) elements =
      (oddly has elements != oddly other elements) := by
  induction elements with
  | nil => rfl
  | cons element rest ih =>
    rw [oddly_cons, oddly_cons, oddly_cons, ih]
    cases has element <;> cases other element <;> cases oddly has rest <;>
      cases oddly other rest <;> rfl

theorem oddly_congr {has other : ι → Bool} {elements : List ι}
    (hsame : ∀ element ∈ elements, has element = other element) :
    oddly has elements = oddly other elements := by
  induction elements with
  | nil => rfl
  | cons element rest ih =>
    rw [oddly_cons, oddly_cons, hsame element List.mem_cons_self,
      ih fun next hmem => hsame next (List.mem_cons_of_mem element hmem)]

theorem oddly_eq_false {has : ι → Bool} {elements : List ι}
    (hnone : ∀ element ∈ elements, has element = false) : oddly has elements = false := by
  rw [oddly_congr hnone]
  induction elements with
  | nil => rfl
  | cons element rest ih =>
    rw [oddly_cons, Bool.false_bne]
    exact ih fun next hmem => hnone next (List.mem_cons_of_mem element hmem)

theorem oddly_of_single {has : ι → Bool} {elements : List ι} (hnodup : elements.Nodup) {only : ι}
    (hmem : only ∈ elements) (honly : has only = true)
    (hothers : ∀ element ∈ elements, element ≠ only → has element = false) :
    oddly has elements = true := by
  induction elements with
  | nil => exact absurd hmem List.not_mem_nil
  | cons element rest ih =>
    obtain ⟨hnew, hnodup⟩ := List.nodup_cons.mp hnodup
    rw [oddly_cons]
    obtain rfl | hmem := List.mem_cons.mp hmem
    · rw [honly, oddly_eq_false fun next hnext => hothers next (List.mem_cons_of_mem only hnext)
        (ne_of_mem_of_not_mem hnext hnew)]
      rfl
    · rw [hothers element List.mem_cons_self (ne_of_mem_of_not_mem hmem hnew).symm, Bool.false_bne]
      exact ih hnodup hmem fun next hnext => hothers next (List.mem_cons_of_mem element hnext)

theorem oddly_eq_true_iff (has : ι → Bool) (elements : List ι) :
    oddly has elements = true ↔ Odd (elements.countP has) := by
  induction elements with
  | nil => simp [oddly_nil]
  | cons element rest ih =>
    rw [oddly_cons]
    cases helement : has element with
    | false => rw [Bool.false_bne, ih, List.countP_cons_of_neg (by simp [helement])]
    | true =>
      rw [List.countP_cons_of_pos helement, Nat.odd_add_one, ← ih, Bool.true_bne,
        Bool.not_eq_true', Bool.not_eq_true]

/-- A closed chain changes sides an even number of times. -/
theorem oddly_closedEdges (side : ι → Bool) (chain : List ι) :
    oddly (fun edge => side edge.1 != side edge.2) (closedEdges chain) = false := by
  have hwalk : ∀ (first last : ι) (walk : List ι),
      oddly (fun edge => side edge.1 != side edge.2) ((first :: walk).zip (walk ++ [last])) =
        (side first != side last) := by
    intro first last walk
    induction walk generalizing first with
    | nil => exact (oddly_cons _ _ _).trans (Bool.bne_false _)
    | cons second rest ih =>
      rw [List.cons_append, List.zip_cons_cons, oddly_cons, ih, Bool.bne_assoc,
        ← Bool.bne_assoc (side second), bne_self_eq_false, Bool.false_bne]
  cases chain with
  | nil => rfl
  | cons first rest => exact (hwalk first first rest).trans (bne_self_eq_false (side first))

end Oddly

/-! ### One edge -/

namespace Point

variable {start finish below above point : Point ℝ}

theorem turn_toward (first second start finish : Point ℝ) (share : ℝ) :
    first.turn second (start.toward finish share) =
      (1 - share) * first.turn second start + share * first.turn second finish := by
  simp only [turn, toward]
  ring

/-- The way between two points to the left of a line stays there. -/
theorem IsBetween.turn_pos {first second : Point ℝ} (hbetween : start.IsBetween finish point)
    (hstart : 0 < first.turn second start) (hfinish : 0 < first.turn second finish) :
    0 < first.turn second point := by
  obtain ⟨share, hshare, hone, rfl⟩ := hbetween
  rw [turn_toward]
  obtain hzero | hpos := hshare.eq_or_lt
  · rwa [← hzero, sub_zero, one_mul, zero_mul, add_zero]
  · exact add_pos_of_nonneg_of_pos (mul_nonneg (sub_nonneg.mpr hone) hstart.le)
      (mul_pos hpos hfinish)

theorem turn_neg_iff_of_below (hup : below.y < above.y) (hlevel : point.y = below.y) :
    below.turn above point < 0 ↔ below.x < point.x := by
  have hturn : below.turn above point = -((above.y - below.y) * (point.x - below.x)) := by
    rw [turn, hlevel]
    ring
  rw [hturn, neg_lt_zero, mul_pos_iff_of_pos_left (sub_pos.mpr hup), sub_pos]

theorem turn_neg_iff_of_above (hup : below.y < above.y) (hlevel : point.y = above.y) :
    below.turn above point < 0 ↔ above.x < point.x := by
  have hturn : below.turn above point = -((above.y - below.y) * (point.x - above.x)) := by
    rw [turn, hlevel]
    ring
  rw [hturn, neg_lt_zero, mul_pos_iff_of_pos_left (sub_pos.mpr hup), sub_pos]

theorem isBetween_of_turn_eq_zero (hup : below.y < above.y) (hline : below.turn above point = 0)
    (hlow : below.y ≤ point.y) (hhigh : point.y ≤ above.y) : below.IsBetween above point := by
  obtain ⟨share, rfl⟩ := exists_eq_toward hline (fun heq => hup.ne (congrArg Point.y heq))
  simp only [toward] at hlow hhigh
  exact ⟨share, by nlinarith, by nlinarith, rfl⟩

theorem isBetween_of_level {other : Point ℝ} (hlevel : start.y = finish.y)
    (hother : other.y = start.y) (hleft : start.x ≤ other.x) (hright : other.x ≤ finish.x) :
    start.IsBetween finish other := by
  obtain hnone | hlong := (hleft.trans hright).eq_or_lt
  · have hends : other = start := Point.ext (le_antisymm (hright.trans hnone.ge) hleft) hother
    rw [hends]
    exact isBetween_start start finish
  · have hgap : 0 < finish.x - start.x := sub_pos.mpr hlong
    refine ⟨(other.x - start.x) / (finish.x - start.x), div_nonneg (by linarith) hgap.le,
      (div_le_one hgap).mpr (by linarith), Point.ext ?_ ?_⟩
    · simp only [toward]
      rw [div_mul_cancel₀ _ hgap.ne', add_sub_cancel]
    · simp only [toward]
      rw [hother, hlevel, sub_self, mul_zero, add_zero]

/-- The way up from one point to another passes a point on its right. -/
noncomputable def passes (below above point : Point ℝ) : Bool :=
  decide (below.y < point.y) && !decide (above.y < point.y) &&
    decide (below.turn above point < 0)

theorem passes_of_le (hlow : point.y ≤ below.y) : below.passes above point = false := by
  simp [passes, not_lt.mpr hlow]

theorem passes_of_lt (hhigh : above.y < point.y) : below.passes above point = false := by
  simp [passes, hhigh]

theorem passes_of_level (hlow : below.y < point.y) (hhigh : point.y ≤ above.y) :
    below.passes above point = decide (below.turn above point < 0) := by
  simp [passes, hlow, not_lt.mpr hhigh]

/-- Between the heights of a way that it does not meet, an edge stays on one side. -/
theorem turn_neg_of_clear (hup : below.y < above.y)
    (hclear : ∀ point, start.IsBetween finish point → ¬below.IsBetween above point)
    {share other : ℝ} (hshare : 0 ≤ share ∧ share ≤ 1) (hother : 0 ≤ other ∧ other ≤ 1)
    (hheight : below.y ≤ (start.toward finish share).y ∧ (start.toward finish share).y ≤ above.y)
    (hheight' : below.y ≤ (start.toward finish other).y ∧ (start.toward finish other).y ≤ above.y)
    (hright : below.turn above (start.toward finish share) < 0) :
    below.turn above (start.toward finish other) < 0 := by
  by_contra hleft
  rw [not_lt] at hleft
  -- In between, the edge would meet the line of the way, at a height of the way.
  have hgap : 0 < below.turn above (start.toward finish other) -
      below.turn above (start.toward finish share) := by linarith
  obtain ⟨part, hpart⟩ : ∃ part, part * (below.turn above (start.toward finish other) -
      below.turn above (start.toward finish share)) =
        -below.turn above (start.toward finish share) :=
    ⟨_, div_mul_cancel₀ _ hgap.ne'⟩
  have hpos : 0 ≤ part := by
    by_contra hneg
    nlinarith
  have hone : part ≤ 1 := by
    by_contra hmore
    nlinarith
  have hbetween : (start.toward finish share).toward (start.toward finish other) part =
      start.toward finish (share + part * (other - share)) := by
    simp only [toward, mk.injEq]
    constructor <;> ring
  refine hclear (start.toward finish (share + part * (other - share)))
    ⟨_, by nlinarith, by nlinarith, rfl⟩ ?_
  rw [← hbetween]
  refine isBetween_of_turn_eq_zero hup ?_ ?_ ?_
  · rw [turn_toward]
    linarith
  · simp only [toward] at hheight hheight' ⊢
    nlinarith
  · simp only [toward] at hheight hheight' ⊢
    nlinarith

end Point

namespace Box

theorem contains_of_holds {box : Box ℝ} {point : Point ℝ} (hholds : box.Holds point) :
    box.contains point = true := by
  simp [contains, hholds.isEmpty_eq, hholds.left, hholds.right, hholds.below, hholds.above]

/-- A box that holds both ends of a way holds the points on it. -/
theorem Holds.toward {box : Box ℝ} {start finish : Point ℝ} (hstart : box.Holds start)
    (hfinish : box.Holds finish) {share : ℝ} (hshare : 0 ≤ share ∧ share ≤ 1) :
    box.Holds (start.toward finish share) := by
  obtain ⟨hpos, hone⟩ := hshare
  have hmean : ∀ {low first second : ℝ}, low ≤ first → low ≤ second →
      low ≤ first + share * (second - first) := by
    intro low first second hfirst hsecond
    nlinarith
  have hmean' : ∀ {high first second : ℝ}, first ≤ high → second ≤ high →
      first + share * (second - first) ≤ high := by
    intro high first second hfirst hsecond
    nlinarith
  exact ⟨hmean hstart.left hfinish.left, hmean' hstart.right hfinish.right,
    hmean hstart.below hfinish.below, hmean' hstart.above hfinish.above⟩

end Box

namespace Polygon

variable {start finish below above point : Point ℝ}

theorem crosses_of_same (hsame : point.y < start.y ↔ point.y < finish.y) :
    crosses point (start, finish) = false := by
  have hside : (decide (point.y < start.y) != decide (point.y < finish.y)) = false := by
    rw [bne_eq_false_iff_eq, decide_eq_decide]
    exact hsame
  simp only [crosses, hside, Bool.false_eq_true, if_false]

/-- An edge with its ends on both sides of a height is crossed from there to the left of the point
where it has that height. -/
theorem exists_level {height : ℝ} (hsides : ¬(height < start.y ↔ height < finish.y)) :
    ∃ share, (0 ≤ share ∧ share ≤ 1) ∧ (start.toward finish share).y = height ∧
      ∀ point : Point ℝ, point.y = height →
        (crosses point (start, finish) = true ↔ point.x < (start.toward finish share).x) := by
  have hne : finish.y - start.y ≠ 0 := by
    intro hlevel
    rw [sub_eq_zero.mp hlevel] at hsides
    exact hsides Iff.rfl
  refine ⟨(height - start.y) / (finish.y - start.y), ?_, ?_, ?_⟩
  · obtain hlow | hlow := lt_or_ge height start.y
    · have hhigh : finish.y ≤ height :=
        not_lt.mp fun hhigh => hsides ⟨fun _ => hhigh, fun _ => hlow⟩
      exact ⟨div_nonneg_of_nonpos (by linarith) (by linarith),
        (div_le_one_of_neg (by linarith)).mpr (by linarith)⟩
    · have hhigh : height < finish.y := by
        by_contra hhigh
        exact hsides ⟨fun hlt => absurd hlt (not_lt.mpr hlow), fun hlt => absurd hlt hhigh⟩
      exact ⟨div_nonneg (by linarith) (by linarith),
        (div_le_one (by linarith)).mpr (by linarith)⟩
  · simp only [Point.toward]
    rw [div_mul_cancel₀ _ hne]
    ring
  · rintro point rfl
    have hside : (decide (point.y < start.y) != decide (point.y < finish.y)) = true := by
      rw [bne_iff_ne, ne_eq, decide_eq_decide]
      exact hsides
    simp only [crosses, hside, if_true, Point.toward]
    exact decide_eq_true_iff

/-- Where an edge enters the heights of a way, what is known of its end is on which side of the way
it is there: an end below or above the way counts by whether the edge is crossed from that end of
the way, and an end at a height of the way by whether the way passes it. -/
theorem exists_entry (start finish : Point ℝ) (hup : below.y < above.y) {share : ℝ}
    (hshare : 0 ≤ share ∧ share ≤ 1)
    (hbelow : (start.toward finish share).y ≤ below.y →
      ¬(below.y < start.y ↔ below.y < finish.y))
    (habove : above.y < (start.toward finish share).y →
      ¬(above.y < start.y ↔ above.y < finish.y)) :
    ∃ entry, (0 ≤ entry ∧ entry ≤ 1) ∧
      (below.y ≤ (start.toward finish entry).y ∧ (start.toward finish entry).y ≤ above.y) ∧
      ((below.passes above (start.toward finish share) !=
          (decide ((start.toward finish share).y ≤ below.y) && crosses below (start, finish))) !=
        (decide (above.y < (start.toward finish share).y) && crosses above (start, finish))) =
      decide (below.turn above (start.toward finish entry) < 0) := by
  obtain hlow | hlow := le_or_gt (start.toward finish share).y below.y
  · obtain ⟨entry, hentry, hlevel, hcross⟩ := exists_level (hbelow hlow)
    have hside : crosses below (start, finish) =
        decide (below.turn above (start.toward finish entry) < 0) := by
      rw [Bool.eq_iff_iff, hcross below rfl, decide_eq_true_iff]
      exact (Point.turn_neg_iff_of_below hup hlevel).symm
    refine ⟨entry, hentry, ⟨hlevel.ge, hlevel.trans_le hup.le⟩, ?_⟩
    rw [Point.passes_of_le hlow, decide_eq_true hlow,
      decide_eq_false (not_lt.mpr (hlow.trans hup.le)), hside]
    simp
  · obtain hhigh | hhigh := le_or_gt (start.toward finish share).y above.y
    · refine ⟨share, hshare, ⟨hlow.le, hhigh⟩, ?_⟩
      rw [Point.passes_of_level hlow hhigh, decide_eq_false (not_le.mpr hlow),
        decide_eq_false (not_lt.mpr hhigh)]
      simp
    · obtain ⟨entry, hentry, hlevel, hcross⟩ := exists_level (habove hhigh)
      have hside : crosses above (start, finish) =
          decide (below.turn above (start.toward finish entry) < 0) := by
        rw [Bool.eq_iff_iff, hcross above rfl, decide_eq_true_iff]
        exact (Point.turn_neg_iff_of_above hup hlevel).symm
      refine ⟨entry, hentry, ⟨hup.le.trans_eq hlevel.symm, hlevel.le⟩, ?_⟩
      rw [Point.passes_of_lt hhigh, decide_eq_false (not_le.mpr hlow), decide_eq_true hhigh, hside]
      simp

/-- An edge that does not meet the way up from one point to another is crossed from just one of them
where the way passes just one of its ends on the right. -/
theorem crosses_bne_crosses (hup : below.y < above.y)
    (hclear : ∀ point, start.IsBetween finish point → ¬below.IsBetween above point) :
    (crosses below (start, finish) != crosses above (start, finish)) =
      (below.passes above start != below.passes above finish) := by
  have hzero := Point.toward_zero start finish
  have hone := Point.toward_one start finish
  have hbelow : decide (start.y ≤ below.y) = decide (finish.y ≤ below.y) →
      crosses below (start, finish) = false :=
    fun hsame => crosses_of_same (by simpa [← not_le] using not_congr (decide_eq_decide.mp hsame))
  have habove : decide (above.y < start.y) = decide (above.y < finish.y) →
      crosses above (start, finish) = false :=
    fun hsame => crosses_of_same (decide_eq_decide.mp hsame)
  by_cases haway :
    (start.y ≤ below.y ∧ finish.y ≤ below.y) ∨ (above.y < start.y ∧ above.y < finish.y)
  · obtain ⟨hstart, hfinish⟩ | ⟨hstart, hfinish⟩ := haway
    · rw [hbelow (by simp [hstart, hfinish]), habove (by grind), Point.passes_of_le hstart,
        Point.passes_of_le hfinish]
    · rw [hbelow (by grind), habove (by simp [hstart, hfinish]), Point.passes_of_lt hstart,
        Point.passes_of_lt hfinish]
  · obtain ⟨entry, hentry, hheight, hvalue⟩ := exists_entry start finish hup
      ⟨le_rfl, zero_le_one⟩ (by grind) (by grind)
    obtain ⟨leave, hleave, hheight', hvalue'⟩ := exists_entry start finish hup
      ⟨zero_le_one, le_rfl⟩ (by grind) (by grind)
    have hside : decide (below.turn above (start.toward finish entry) < 0) =
        decide (below.turn above (start.toward finish leave) < 0) := decide_eq_decide.mpr
      ⟨Point.turn_neg_of_clear hup hclear hentry hleave hheight hheight',
        Point.turn_neg_of_clear hup hclear hleave hentry hheight' hheight⟩
    rw [hzero] at hvalue
    rw [hone] at hvalue'
    have hsame := (hvalue.trans hside).trans hvalue'.symm
    generalize decide (start.y ≤ below.y) = startLow, decide (finish.y ≤ below.y) = finishLow,
      decide (above.y < start.y) = startHigh, decide (above.y < finish.y) = finishHigh,
      crosses below (start, finish) = fromBelow, crosses above (start, finish) = fromAbove,
      below.passes above start = passesStart, below.passes above finish = passesFinish
      at hsame hbelow habove ⊢
    revert hsame hbelow habove
    revert startLow finishLow startHigh finishHigh fromBelow fromAbove passesStart passesFinish
    decide

/-- An edge that does not meet a level way is crossed from both of its ends or from none. -/
theorem crosses_eq_of_level {other : Point ℝ} (hlevel : point.y = other.y)
    (hclear : ∀ between, start.IsBetween finish between → ¬point.IsBetween other between) :
    crosses point (start, finish) = crosses other (start, finish) := by
  by_cases hsame : point.y < start.y ↔ point.y < finish.y
  · rw [crosses_of_same hsame, crosses_of_same (hlevel ▸ hsame)]
  · obtain ⟨share, hshare, hheight, hcross⟩ := exists_level hsame
    have hmeets : ¬point.IsBetween other (start.toward finish share) :=
      hclear _ ⟨share, hshare.1, hshare.2, rfl⟩
    rw [Bool.eq_iff_iff, hcross point rfl, hcross other hlevel.symm]
    constructor
    · intro hleft
      by_contra hright
      exact hmeets (Point.isBetween_of_level hlevel hheight hleft.le (not_lt.mp hright))
    · intro hleft
      by_contra hright
      exact hmeets (Point.isBetween_comm.mp
        (Point.isBetween_of_level hlevel.symm (hheight.trans hlevel) hleft.le (not_lt.mp hright)))

/-! ### All edges -/

/-- A point lies on an edge. -/
def Boundary (polygon : Polygon ℝ) (point : Point ℝ) : Prop :=
  ∃ edge ∈ polygon.edges, edge.1.IsBetween edge.2 point

theorem crossesOddly_eq (polygon : Polygon ℝ) (point : Point ℝ) :
    polygon.crossesOddly point = oddly (crosses point) polygon.edges := rfl

/-- Along a way that does not meet the boundary, the number of crossings stays odd or even. -/
theorem crossesOddly_eq_of_clear {polygon : Polygon ℝ} {point other : Point ℝ}
    (hclear : ∀ between, point.IsBetween other between → ¬polygon.Boundary between) :
    polygon.crossesOddly point = polygon.crossesOddly other := by
  have hedge : ∀ edge ∈ polygon.edges, ∀ between, edge.1.IsBetween edge.2 between →
      ¬point.IsBetween other between :=
    fun edge hmem between hon hbetween => hclear between hbetween ⟨edge, hmem, hon⟩
  have hup : ∀ {below above : Point ℝ}, below.y < above.y →
      (∀ edge ∈ polygon.edges, ∀ between, edge.1.IsBetween edge.2 between →
        ¬below.IsBetween above between) →
      polygon.crossesOddly below = polygon.crossesOddly above := by
    intro below above hup hedge
    have hchange : oddly (fun edge => crosses below edge != crosses above edge) polygon.edges =
        false := by
      rw [oddly_congr fun edge hmem => crosses_bne_crosses hup (hedge edge hmem)]
      exact oddly_closedEdges (below.passes above) polygon.vertices
    rw [oddly_bne, bne_eq_false_iff_eq] at hchange
    exact hchange
  obtain hlt | hlevel | hgt := lt_trichotomy point.y other.y
  · exact hup hlt hedge
  · exact oddly_congr fun edge hmem => crosses_eq_of_level hlevel (hedge edge hmem)
  · refine (hup hgt fun edge hmem between hon hbetween => ?_).symm
    exact hedge edge hmem between hon (Point.isBetween_comm.mp hbetween)

/-! ### The bounding box -/

theorem mem_of_mem_edges {polygon : Polygon ℝ} {edge : Point ℝ × Point ℝ}
    (hmem : edge ∈ polygon.edges) : edge.1 ∈ polygon.vertices ∧ edge.2 ∈ polygon.vertices := by
  rw [edges] at hmem
  cases hvertices : polygon.vertices with
  | nil =>
    rw [hvertices] at hmem
    exact absurd hmem List.not_mem_nil
  | cons first rest =>
    rw [hvertices] at hmem
    obtain ⟨hstart, hfinish⟩ := List.of_mem_zip hmem
    exact ⟨hstart, by simpa [or_comm] using hfinish⟩

/-- Beyond the left side of the box of the vertices, all edges with the height of a point are
crossed, and these are an even number; beyond the other sides, no edge is crossed at all. -/
theorem holds_of_crossesOddly {vertices : List (Point ℝ)} {point : Point ℝ}
    (hodd : (ofVertices vertices).crossesOddly point = true) :
    (Box.ofPoints vertices).Holds point := by
  have hvertex : ∀ edge ∈ (ofVertices vertices).edges,
      (Box.ofPoints vertices).Holds edge.1 ∧ (Box.ofPoints vertices).Holds edge.2 := by
    intro edge hmem
    obtain ⟨hstart, hfinish⟩ := mem_of_mem_edges hmem
    exact ⟨Box.holds_ofPoints hstart, Box.holds_ofPoints hfinish⟩
  have hsome : ¬∀ edge ∈ (ofVertices vertices).edges, crosses point edge = false := by
    intro hnone
    exact Bool.false_ne_true ((oddly_eq_false hnone).symm.trans hodd)
  refine ⟨?_, ?_, ?_, ?_⟩
  · by_contra hleft
    rw [not_le] at hleft
    have hside : ∀ edge ∈ (ofVertices vertices).edges, crosses point edge =
        (decide (point.y < edge.1.y) != decide (point.y < edge.2.y)) := by
      rintro ⟨start, finish⟩ hmem
      by_cases hsame : point.y < start.y ↔ point.y < finish.y
      · rw [crosses_of_same hsame, decide_eq_decide.mpr hsame, bne_self_eq_false]
      · obtain ⟨share, hshare, -, hcross⟩ := exists_level hsame
        have hheld := (hvertex _ hmem).1.toward (hvertex _ hmem).2 hshare
        rw [(hcross point rfl).mpr (hleft.trans_le hheld.left), eq_comm, bne_iff_ne, ne_eq,
          decide_eq_decide]
        exact hsame
    have heven := oddly_closedEdges (fun vertex : Point ℝ => decide (point.y < vertex.y)) vertices
    rw [crossesOddly_eq, oddly_congr hside] at hodd
    exact Bool.false_ne_true (heven.symm.trans hodd)
  · by_contra hright
    rw [not_le] at hright
    refine hsome ?_
    rintro ⟨start, finish⟩ hmem
    by_cases hsame : point.y < start.y ↔ point.y < finish.y
    · exact crosses_of_same hsame
    · obtain ⟨share, hshare, -, hcross⟩ := exists_level hsame
      have hheld := (hvertex _ hmem).1.toward (hvertex _ hmem).2 hshare
      rw [← Bool.not_eq_true, hcross point rfl]
      exact not_lt.mpr (hheld.right.trans hright.le)
  · by_contra hbelow
    rw [not_le] at hbelow
    refine hsome ?_
    rintro ⟨start, finish⟩ hmem
    obtain ⟨hstart, hfinish⟩ := hvertex _ hmem
    exact crosses_of_same
      (iff_of_true (hbelow.trans_le hstart.below) (hbelow.trans_le hfinish.below))
  · by_contra habove
    rw [not_le] at habove
    refine hsome ?_
    rintro ⟨start, finish⟩ hmem
    obtain ⟨hstart, hfinish⟩ := hvertex _ hmem
    exact crosses_of_same (iff_of_false (not_lt.mpr (hstart.above.trans habove.le))
      (not_lt.mpr (hfinish.above.trans habove.le)))

/-- Turning points outside the bounding box away first changes nothing. -/
theorem contains_ofVertices (vertices : List (Point ℝ)) (point : Point ℝ) :
    (ofVertices vertices).contains point = (ofVertices vertices).crossesOddly point := by
  rw [contains]
  cases hodd : (ofVertices vertices).crossesOddly point with
  | false => exact Bool.and_false _
  | true =>
    rw [Bool.and_true]
    exact Box.contains_of_holds (holds_of_crossesOddly hodd)

/-- **The quick rejection.** A polygon with the bounding box of its vertices, whatever they are,
holds a point just when the ray from the point crosses the boundary, without any look at the box;
that is, when it crosses an odd number of edges. -/
theorem contains_eq_crossesOddly (polygon : Polygon ℝ)
    (hbounds : polygon.bounds = .ofPoints polygon.vertices) (point : Point ℝ) :
    polygon.contains point = polygon.crossesOddly point ∧
      (polygon.contains point = true ↔ Odd (polygon.edges.countP (crosses point))) := by
  obtain ⟨vertices, bounds⟩ := polygon
  obtain rfl : bounds = .ofPoints vertices := hbounds
  have hsame := contains_ofVertices vertices point
  exact ⟨hsame, (Bool.eq_iff_iff.mp hsame).trans (oddly_eq_true_iff _ _)⟩

/-- A ray from the left of a polygon with two crossing edges runs along two of its vertices and
crosses the other edges as often in as out. -/
theorem crossed_polygon_is_left_out :
    let polygon : Polygon ℝ := ofVertices [⟨0, 0⟩, ⟨2, 2⟩, ⟨2, 0⟩, ⟨0, 2⟩]
    let point : Point ℝ := ⟨-1, 0⟩
    polygon.bounds = .ofPoints polygon.vertices ∧ polygon.contains point = false ∧
      polygon.crossesOddly point = false ∧
      ¬Odd (polygon.edges.countP (crosses point)) := by
  intro polygon point
  have hbounds : polygon.bounds = .ofPoints polygon.vertices := rfl
  obtain ⟨hsame, hodd⟩ := contains_eq_crossesOddly polygon hbounds point
  have hleft : polygon.contains point = false := by
    have hfits : polygon.bounds.Fits polygon.vertices := Box.fits_ofPoints (List.cons_ne_nil _ _)
    obtain ⟨vertex, hmem, hvertex⟩ := hfits.left
    have hnonneg : 0 ≤ vertex.x := by
      simp only [polygon, ofVertices, List.mem_cons, List.not_mem_nil, or_false] at hmem
      obtain rfl | rfl | rfl | rfl := hmem <;> norm_num
    have hbeyond : ¬polygon.bounds.lower.x ≤ point.x := by
      rw [← hvertex, not_le]
      exact lt_of_lt_of_le (show (-1 : ℝ) < 0 by norm_num) hnonneg
    simp [contains, Box.contains, hbeyond]
  exact ⟨hbounds, hleft, hsame ▸ hleft, by simpa [hleft] using hodd⟩

end Polygon

end LabelPlacement
