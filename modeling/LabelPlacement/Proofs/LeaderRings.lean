import Mathlib.Analysis.SpecialFunctions.Complex.Arg
import LabelPlacement.Proofs.Positions
import LabelPlacement.Proofs.Rectangles
import LabelPlacement.Proofs.Surroundings

/-!
# The rings of a leader line

A place for a label with a leader line is looked for on rings about the anchor whose radii are the
multiples of a step. Each direction of a ring has one box (`ringBox`): it touches the ring with the
middle of a side or with a corner, and lies beyond it, so that the point where it touches is its
nearest one to the anchor (`Box.IsNearest`). The search itself has no bound on the number of rings
(`Run.RingSearch`); the greatest radius ends it, after as many rings as there are multiples of the
step up to it.
-/

namespace LabelPlacement

/-! ### Nearest points -/

/-- Every number of a range but the one that a number is clamped to is farther from it. -/
theorem Scalar.abs_clamp_sub_lt {low high point : ℝ} (value : ℝ) (hlow : low ≤ point)
    (hhigh : point ≤ high) (hne : point ≠ clamp value low high) :
    |clamp value low high - value| < |point - value| := by
  refine lt_of_le_of_ne (abs_clamp_sub_le value hlow hhigh) fun hsame => hne ?_
  obtain hbelow | hwithin := lt_or_ge value low
  · have hclamp : clamp value low high = low := by
      simp only [clamp, hbelow, if_true, not_lt.mpr (hlow.trans hhigh), if_false]
    rw [hclamp, abs_of_pos (sub_pos.mpr hbelow),
      abs_of_pos (sub_pos.mpr (hbelow.trans_le hlow))] at hsame
    rw [hclamp]
    linarith
  · obtain habove | hinside := lt_or_ge high value
    · have hclamp : clamp value low high = high := by
        simp only [clamp, not_lt.mpr hwithin, if_false, habove, if_true]
      rw [hclamp, abs_of_neg (sub_neg.mpr habove),
        abs_of_neg (sub_neg.mpr (hhigh.trans_lt habove))] at hsame
      rw [hclamp]
      linarith
    · rw [clamp_of_mem hwithin hinside, sub_self, abs_zero, eq_comm, abs_eq_zero] at hsame
      rw [clamp_of_mem hwithin hinside]
      linarith

namespace Box

/-- The point is the one of the box that is nearest to an anchor. -/
structure IsNearest (box : Box ℝ) (anchor point : Point ℝ) : Prop where
  holds : box.Holds point
  nearest : ∀ other, box.Holds other → other ≠ point →
    anchor.distance point < anchor.distance other

theorem isNearest_nearestTo {box : Box ℝ} (hwidth : box.lower.x ≤ box.upper.x)
    (hheight : box.lower.y ≤ box.upper.y) (anchor : Point ℝ) :
    box.IsNearest anchor (box.nearestTo anchor) where
  holds := by
    obtain ⟨hleft, hright⟩ := Scalar.clamp_mem anchor.x hwidth
    obtain ⟨hbelow, habove⟩ := Scalar.clamp_mem anchor.y hheight
    exact ⟨hleft, hright, hbelow, habove⟩
  nearest other hother hne := by
    have hx := Scalar.abs_clamp_sub_le anchor.x hother.left hother.right
    have hy := Scalar.abs_clamp_sub_le anchor.y hother.below hother.above
    apply Real.sqrt_lt_sqrt (add_nonneg (mul_self_nonneg _) (mul_self_nonneg _))
    change (anchor.x - (box.nearestTo anchor).x) * (anchor.x - (box.nearestTo anchor).x) +
        (anchor.y - (box.nearestTo anchor).y) * (anchor.y - (box.nearestTo anchor).y) <
      (anchor.x - other.x) * (anchor.x - other.x) + (anchor.y - other.y) * (anchor.y - other.y)
    rw [abs_sub_comm, abs_sub_comm other.x] at hx
    rw [abs_sub_comm, abs_sub_comm other.y] at hy
    by_cases hsame : other.x = (box.nearestTo anchor).x
    · have hdiffers : other.y ≠ (box.nearestTo anchor).y :=
        fun hsameY => hne (Point.ext hsame hsameY)
      have hless := Scalar.abs_clamp_sub_lt anchor.y hother.below hother.above hdiffers
      rw [abs_sub_comm, abs_sub_comm other.y] at hless
      exact add_lt_add_of_le_of_lt (abs_le_iff_mul_self_le.mp hx) (abs_lt_iff_mul_self_lt.mp hless)
    · have hless := Scalar.abs_clamp_sub_lt anchor.x hother.left hother.right hsame
      rw [abs_sub_comm, abs_sub_comm other.x] at hless
      exact add_lt_add_of_lt_of_le (abs_lt_iff_mul_self_lt.mp hless) (abs_le_iff_mul_self_le.mp hy)

end Box

/-! ### Boxes that touch a ring -/

theorem Candidate.bounds_upright (centre : Point ℝ) {width height : ℝ} (hwidth : 0 ≤ width)
    (hheight : 0 ≤ height) :
    (create centre width height 0).bounds =
      ⟨⟨centre.x - width / 2, centre.y - height / 2⟩,
        ⟨centre.x + width / 2, centre.y + height / 2⟩⟩ := by
  symm
  change _ = Box.ofPoints (create centre width height 0).corners.toList
  rw [Corners.toList_upright]
  apply Box.Fits.eq_ofPoints
  refine ⟨fun corner hmem => ?_, ⟨_, List.mem_cons_self, rfl⟩, ⟨_, by simp, rfl⟩,
    ⟨_, List.mem_cons_self, rfl⟩, ⟨_, by simp, rfl⟩⟩
  simp only [List.mem_cons, List.not_mem_nil, or_false] at hmem
  obtain rfl | rfl | rfl | rfl := hmem <;> constructor <;> dsimp only <;> linarith

/-- Where the box of a ring in a direction touches the ring. -/
noncomputable def touchingPoint (anchor : Point ℝ) (radius : ℝ) (position : Compass) : Point ℝ :=
  let step : Displacement ℝ := position.displacement
  anchor.translate (step.scale (radius / step.length))

/-- The box of a ring in a direction: from the point where it touches the ring it extends outwards,
and to both sides where the direction runs along an axis. -/
noncomputable def ringBox (anchor : Point ℝ) (width height radius : ℝ) (position : Compass) :
    Box ℝ :=
  let step : Displacement ℝ := position.displacement
  let touching := touchingPoint anchor radius position
  ⟨⟨touching.x + (step.x - 1) / 2 * width, touching.y + (step.y - 1) / 2 * height⟩,
    ⟨touching.x + (step.x + 1) / 2 * width, touching.y + (step.y + 1) / 2 * height⟩⟩

variable {anchor : Point ℝ} {width height radius : ℝ} {position : Compass}

theorem Compass.mem_around : position ∈ around ↔ position ≠ .onPoint := by
  cases position <;> simp [around]

theorem Compass.one_le_length (haside : position ≠ .onPoint) :
    1 ≤ (displacement position : Displacement ℝ).length := by
  rw [Displacement.length_eq_sqrt, Real.one_le_sqrt]
  exact one_le_squares haside

theorem Displacement.scale_of_unit? {displacement direction : Displacement ℝ}
    (hunit : displacement.unit? = some direction) (radius : ℝ) :
    direction.scale radius = displacement.scale (radius / displacement.length) := by
  obtain ⟨hpos, -, hscale⟩ := unit?_eq_some hunit
  have hx : direction.x * displacement.length = displacement.x := congrArg Displacement.x hscale
  have hy : direction.y * displacement.length = displacement.y := congrArg Displacement.y hscale
  rw [scale, scale, ← hx, ← hy]
  congr 1 <;> field_simp

theorem Compass.exists_unit? (haside : position ≠ .onPoint) :
    ∃ direction, (displacement position : Displacement ℝ).unit? = some direction :=
  Displacement.exists_unit? (lt_of_lt_of_le (by norm_num) (one_le_length haside))

theorem exists_leaderCandidate (hwidth : 0 ≤ width) (hheight : 0 ≤ height)
    (haside : position ≠ .onPoint) (anchor : Point ℝ) (radius : ℝ) :
    ∃ candidate, leaderCandidate anchor width height radius position = some candidate ∧
      candidate.bounds = ringBox anchor width height radius position := by
  obtain ⟨direction, hunit⟩ := Compass.exists_unit? haside
  rw [leaderCandidate]
  simp only [hunit, Displacement.scale_of_unit? hunit, Option.map_some]
  refine ⟨_, rfl, ?_⟩
  rw [Scalar.numeral_eq, Nat.cast_zero, Candidate.bounds_upright _ hwidth hheight, ringBox,
    touchingPoint]
  simp only [Point.translate, Box.mk.injEq, Point.mk.injEq]
  refine ⟨⟨?_, ?_⟩, ?_, ?_⟩ <;> ring

theorem distance_touchingPoint (haside : position ≠ .onPoint) (anchor : Point ℝ)
    (hradius : 0 ≤ radius) : anchor.distance (touchingPoint anchor radius position) = radius := by
  obtain ⟨direction, hunit⟩ := Compass.exists_unit? haside
  obtain ⟨-, hone, -⟩ := Displacement.unit?_eq_some hunit
  rw [touchingPoint, ← Displacement.scale_of_unit? hunit]
  exact anchor.distance_translate_scale hone hradius

/-- Along an axis, a box of a ring begins where it touches the ring, ends there, or has it in its
middle. -/
theorem clamp_beside {step gap size : ℝ} (value : ℝ) (hstep : step = -1 ∨ step = 0 ∨ step = 1)
    (hgap : 0 ≤ gap) (hsize : 0 ≤ size) :
    Scalar.clamp value (value + step * gap + (step - 1) / 2 * size)
      (value + step * gap + (step + 1) / 2 * size) = value + step * gap := by
  obtain rfl | rfl | rfl := hstep <;> simp only [Scalar.clamp] <;> split_ifs <;> linarith

theorem nearestTo_ringBox (haside : position ≠ .onPoint) (anchor : Point ℝ) (hwidth : 0 ≤ width)
    (hheight : 0 ≤ height) (hradius : 0 ≤ radius) :
    (ringBox anchor width height radius position).nearestTo anchor =
      touchingPoint anchor radius position := by
  obtain ⟨hx, hy⟩ := position.step_displacement
  have hgap : 0 ≤ radius / (Compass.displacement position : Displacement ℝ).length :=
    div_nonneg hradius (zero_le_one.trans (Compass.one_le_length haside))
  exact Point.ext (clamp_beside anchor.x hx hgap hwidth) (clamp_beside anchor.y hy hgap hheight)

theorem ringBox_isOrdered (anchor : Point ℝ) (radius : ℝ) (position : Compass) (hwidth : 0 ≤ width)
    (hheight : 0 ≤ height) :
    let box := ringBox anchor width height radius position
    box.lower.x ≤ box.upper.x ∧ box.lower.y ≤ box.upper.y := by
  constructor <;> dsimp only [ringBox] <;> linarith

/-- The leader line to a box of a ring ends at the point of the box nearest to the anchor, and is as
long as the radius. -/
theorem leader_ringBox (haside : position ≠ .onPoint) (anchor : Point ℝ) (hwidth : 0 ≤ width)
    (hheight : 0 ≤ height) (hradius : 0 ≤ radius) :
    let box := ringBox anchor width height radius position
    box.IsNearest anchor (LeaderLine.toBox anchor box).finish ∧
      anchor.distance (LeaderLine.toBox anchor box).finish = radius := by
  intro box
  obtain ⟨hacross, hup⟩ := ringBox_isOrdered anchor radius position hwidth hheight
  refine ⟨Box.isNearest_nearestTo hacross hup anchor, ?_⟩
  rw [LeaderLine.toBox, nearestTo_ringBox haside anchor hwidth hheight hradius]
  exact distance_touchingPoint haside anchor hradius

/-- A box of a ring touches it at a point that is as far from the anchor as the ring at most, along
either axis. -/
theorem exists_holds_ringBox (haside : position ≠ .onPoint) (anchor : Point ℝ) (hwidth : 0 ≤ width)
    (hheight : 0 ≤ height) (hradius : 0 ≤ radius) :
    ∃ spot, (ringBox anchor width height radius position).Holds spot ∧
      |anchor.x - spot.x| ≤ radius ∧ |anchor.y - spot.y| ≤ radius := by
  obtain ⟨hnearest, hdistance⟩ := leader_ringBox haside anchor hwidth hheight hradius
  exact ⟨_, hnearest.holds, (Displacement.abs_le_length _).1.trans_eq hdistance,
    (Displacement.abs_le_length _).2.trans_eq hdistance⟩

/-! ### One ring -/

namespace Run

variable {run : Run ℝ}

/-- Something is in the way in every direction of a ring. -/
def IsBlocked (run : Run ℝ) (anchor : Point ℝ) (width height radius : ℝ) : Prop :=
  ∀ position : Compass, position ≠ .onPoint →
    run.conflicts (ringBox anchor width height radius position) ≠ []

/-- A place on a ring: a free box in one of its directions, with a leader line to it. -/
structure FitsOn (run : Run ℝ) (anchor : Point ℝ) (width height radius : ℝ)
    (place : LeaderPlace ℝ) : Prop where
  box : ∃ position : Compass, position ≠ .onPoint ∧
    place.candidate.bounds = ringBox anchor width height radius position
  free : run.conflicts place.candidate.bounds = []
  leader : place.leader = .toBox anchor place.candidate.bounds

/-- A ring is blocked if all that is no farther away than it lies inside of another label. -/
theorem isBlocked_of_covered {other : Nat} {box : Box ℝ}
    (hentered : ⟨.label other, box⟩ ∈ run.workspace.index.entries)
    (hother : other ≠ run.request.id) (hwidth : 0 ≤ width) (hheight : 0 ≤ height)
    (hradius : 0 ≤ radius) (hx : box.lower.x < anchor.x - radius ∧ anchor.x + radius < box.upper.x)
    (hy : box.lower.y < anchor.y - radius ∧ anchor.y + radius < box.upper.y) :
    run.IsBlocked anchor width height radius := by
  intro position haside
  obtain ⟨spot, hholds, hacross, hup⟩ :=
    exists_holds_ringBox haside anchor hwidth hheight hradius
  obtain ⟨hleft, hright⟩ := abs_le.mp hacross
  obtain ⟨hbelow, habove⟩ := abs_le.mp hup
  refine conflicts_ne_nil_of_holds hentered hother hholds ⟨?_, ?_⟩ ⟨?_, ?_⟩
  · linarith
  · linarith
  · linarith
  · linarith

variable (hbump : run.relaxations.bump = false) (hwidth : 0 ≤ width) (hheight : 0 ≤ height)

include hbump hwidth hheight

theorem fitsOn_of_onRing? {place : LeaderPlace ℝ}
    (hplace : run.onRing? anchor width height radius = some place) :
    run.FitsOn anchor width height radius place := by
  obtain ⟨position, hmem, hposition⟩ := List.exists_of_findSome?_eq_some hplace
  have haside := Compass.mem_around.mp hmem
  obtain ⟨candidate, hcandidate, hbounds⟩ :=
    exists_leaderCandidate hwidth hheight haside anchor radius
  simp only [hcandidate] at hposition
  obtain ⟨resolved, hresolved, rfl⟩ := Option.map_eq_some_iff.mp hposition
  obtain ⟨rfl, hfree⟩ := (resolve?_eq_some_iff hbump).mp hresolved
  exact ⟨⟨position, haside, hbounds⟩, hfree, rfl⟩

/-- **One ring.** Nothing is found on it when all of its boxes are blocked. -/
theorem onRing?_eq_none_iff :
    run.onRing? anchor width height radius = none ↔ run.IsBlocked anchor width height radius := by
  rw [onRing?, List.findSome?_eq_none_iff]
  refine forall_congr' fun position => ?_
  rw [Compass.mem_around]
  refine forall_congr' fun haside => ?_
  obtain ⟨candidate, hcandidate, hbounds⟩ :=
    exists_leaderCandidate hwidth hheight haside anchor radius
  simp only [hcandidate, Option.map_eq_none_iff]
  rw [← hbounds, Option.eq_none_iff_forall_ne_some]
  constructor
  · intro hnone hfree
    exact hnone candidate (resolve?_of_conflicts_eq_nil hfree)
  · intro hblocked resolved hresolved
    exact hblocked ((resolve?_eq_some_iff hbump).mp hresolved).2

/-! ### Rings of growing radius -/

omit hbump hwidth hheight

/-- The search on the rings from a radius on, without a bound on their number: how many it looks at,
and what it finds. -/
inductive RingSearch (run : Run ℝ) (anchor : Point ℝ) (width height step maxRadius : ℝ) :
    (radius : ℝ) → (rings : Nat) → Option (LeaderPlace ℝ) → Prop
  | beyond {radius : ℝ} (hbeyond : maxRadius < radius) :
      RingSearch run anchor width height step maxRadius radius 0 none
  | found {radius : ℝ} {place : LeaderPlace ℝ} (hwithin : radius ≤ maxRadius)
      (hplace : run.onRing? anchor width height radius = some place) :
      RingSearch run anchor width height step maxRadius radius 1 (some place)
  | further {radius : ℝ} {rings : Nat} {answer : Option (LeaderPlace ℝ)}
      (hwithin : radius ≤ maxRadius) (hnone : run.onRing? anchor width height radius = none)
      (hrest : RingSearch run anchor width height step maxRadius (radius + step) rings answer) :
      RingSearch run anchor width height step maxRadius radius (rings + 1) answer

variable {step maxRadius : ℝ} {rings : Nat} {answer : Option (LeaderPlace ℝ)}

/-- A bound that leads beyond the greatest radius does not cut the search short. -/
theorem exists_ringSearch_onRings? (hreach : maxRadius < radius + rings * step) :
    ∃ looked, run.RingSearch anchor width height step maxRadius radius looked
      (run.onRings? anchor width height step maxRadius rings radius) := by
  induction rings generalizing radius with
  | zero =>
    rw [Nat.cast_zero, zero_mul, add_zero] at hreach
    exact ⟨0, .beyond hreach⟩
  | succ rings ih =>
    rw [onRings?]
    by_cases hwithin : radius ≤ maxRadius
    · rw [if_pos hwithin]
      cases hring : run.onRing? anchor width height radius with
      | some place => exact ⟨1, .found hwithin hring⟩
      | none =>
        have hnext : maxRadius < radius + step + rings * step := by
          rw [Nat.cast_succ] at hreach
          linarith
        obtain ⟨looked, hrest⟩ := ih hnext
        exact ⟨looked + 1, .further hwithin hring hrest⟩
    · rw [if_neg hwithin]
      exact ⟨0, .beyond (not_le.mp hwithin)⟩

/-- The last ring that is looked at is within the greatest radius. -/
theorem RingSearch.last_le
    (hsearch : run.RingSearch anchor width height step maxRadius radius rings answer)
    (hrings : rings ≠ 0) : radius + rings * step ≤ maxRadius + step := by
  induction hsearch with
  | beyond => exact absurd rfl hrings
  | found hwithin =>
    rw [Nat.cast_one, one_mul]
    exact add_le_add_left hwithin _
  | @further radius rings answer hwithin _ _ ih =>
    push_cast
    by_cases hlast : rings = 0
    · rw [hlast, Nat.cast_zero]
      linarith
    · linarith [ih hlast]

/-- The search finds nothing only where no ring has a place, and else a place on the first ring that
has one. -/
theorem RingSearch.first (hstep : 0 ≤ step)
    (hsearch : run.RingSearch anchor width height step maxRadius radius rings answer) :
    (answer = none ∧ ∀ count : Nat, radius + count * step ≤ maxRadius →
      run.onRing? anchor width height (radius + count * step) = none) ∨
    ∃ place count, answer = some place ∧ radius + (count : Nat) * step ≤ maxRadius ∧
      run.onRing? anchor width height (radius + count * step) = some place ∧
      ∀ earlier < count, run.onRing? anchor width height (radius + earlier * step) = none := by
  induction hsearch with
  | @beyond radius hbeyond =>
    refine Or.inl ⟨rfl, fun count hwithin => ?_⟩
    have hfarther : 0 ≤ count * step := mul_nonneg (Nat.cast_nonneg count) hstep
    linarith
  | @found radius place hwithin hplace =>
    refine Or.inr ⟨place, 0, rfl, ?_, ?_, fun earlier hearlier => ?_⟩
    · simpa using hwithin
    · simpa using hplace
    · exact absurd hearlier (Nat.not_lt_zero earlier)
  | @further radius rings answer hwithin hnone hrest ih =>
    have hshift (count : Nat) :
        radius + step + count * step = radius + (count + 1 : Nat) * step := by
      push_cast
      ring
    simp only [hshift] at ih
    obtain ⟨rfl, hall⟩ | ⟨place, count, rfl, hreached, hplace, hearlier⟩ := ih
    · refine Or.inl ⟨rfl, fun count => ?_⟩
      cases count with
      | zero => simpa using fun _ => hnone
      | succ count => exact hall count
    · refine Or.inr ⟨place, count + 1, rfl, hreached, hplace, fun earlier hless => ?_⟩
      cases earlier with
      | zero => simpa using hnone
      | succ earlier => exact hearlier earlier (Nat.lt_of_succ_lt_succ hless)

/-- The search for a leader line starts on the first ring. -/
theorem exists_ringSearch_findLeader? {maxLength : Option ℝ}
    (hanchor : run.request.shape.anchor? = some anchor)
    (hstep : 0 < run.workspace.options.leaderStep)
    (hmax : 0 < maxLength.getD run.workspace.options.leaderMaxLength) :
    ∃ rings, run.RingSearch anchor run.extent.1 run.extent.2 run.workspace.options.leaderStep
      (maxLength.getD run.workspace.options.leaderMaxLength + 1e-9)
      run.workspace.options.leaderStep rings (run.findLeader? maxLength) := by
  have hbound := Nat.lt_floor_add_one
    ((maxLength.getD run.workspace.options.leaderMaxLength + 1e-9) /
      run.workspace.options.leaderStep)
  rw [div_lt_iff₀ hstep] at hbound
  rw [findLeader?, hanchor]
  simp only [Scalar.numeral_eq, Nat.cast_zero, not_le.mpr hstep, not_le.mpr hmax, or_self, if_false]
  apply exists_ringSearch_onRings?
  change _ < _ + ((⌊(maxLength.getD run.workspace.options.leaderMaxLength + 1e-9) /
    run.workspace.options.leaderStep⌋₊ + 2 : Nat) : ℝ) * _
  push_cast
  linarith

/-- **Leader lines.** Let labels not be bumped aside. The search for a place with a leader line ends
after at most as many rings as there are multiples of the step up to the greatest radius. It finds
nothing just when the eight boxes of all these rings are blocked. Otherwise it finds a free box of
the smallest ring that has one; the leader line leads from the anchor to the point of the box
nearest to it, and is as long as the radius of the ring. -/
theorem leader_ends_on_smallest_ring {run : Run ℝ} {anchor : Point ℝ} {maxLength : Option ℝ}
    (hbump : run.relaxations.bump = false) (hanchor : run.request.shape.anchor? = some anchor)
    (hwidth : 0 ≤ run.extent.1) (hheight : 0 ≤ run.extent.2)
    (hstep : 0 < run.workspace.options.leaderStep)
    (hmax : 0 < maxLength.getD run.workspace.options.leaderMaxLength) :
    let step := run.workspace.options.leaderStep
    let maxRadius := maxLength.getD run.workspace.options.leaderMaxLength + 1e-9
    let blocked (ring : Nat) := run.IsBlocked anchor run.extent.1 run.extent.2 (ring * step)
    (∃ rings ≤ ⌊maxRadius / step⌋₊, run.RingSearch anchor run.extent.1 run.extent.2 step maxRadius
      step rings (run.findLeader? maxLength)) ∧
    (run.findLeader? maxLength = none ↔
      ∀ ring : Nat, 1 ≤ ring → ring * step ≤ maxRadius → blocked ring) ∧
    ∀ place, run.findLeader? maxLength = some place →
      ∃ ring : Nat, 1 ≤ ring ∧ ring * step ≤ maxRadius ∧
        (∀ smaller : Nat, 1 ≤ smaller → smaller < ring → blocked smaller) ∧
        (∃ position : Compass, position ≠ .onPoint ∧ place.candidate.bounds =
          ringBox anchor run.extent.1 run.extent.2 (ring * step) position) ∧
        run.conflicts place.candidate.bounds = [] ∧
        place.leader.start = anchor ∧
        place.candidate.bounds.IsNearest anchor place.leader.finish ∧
        anchor.distance place.leader.finish = ring * step := by
  intro step maxRadius blocked
  obtain ⟨rings, hsearch⟩ := exists_ringSearch_findLeader? hanchor hstep hmax
  have hring (count : Nat) : step + count * step = (count + 1 : Nat) * step := by
    push_cast
    ring
  have hfirst := hsearch.first hstep.le
  simp only [show run.workspace.options.leaderStep = step from rfl, hring] at hfirst
  refine ⟨⟨rings, ?_, hsearch⟩, ?_, fun place hplace => ?_⟩
  · by_cases hrings : rings = 0
    · exact hrings ▸ Nat.zero_le _
    · have hlast : step + rings * step ≤ maxRadius + step := hsearch.last_le hrings
      refine Nat.le_floor ((le_div_iff₀ hstep).mpr ?_)
      change rings * step ≤ maxRadius
      linarith
  · constructor
    · intro hnone ring hone hwithin
      obtain ⟨count, rfl⟩ := Nat.exists_eq_add_of_le' hone
      obtain ⟨-, hall⟩ | ⟨place, -, hplace, -⟩ := hfirst
      · exact (onRing?_eq_none_iff hbump hwidth hheight).mp (hall count hwithin)
      · rw [hnone] at hplace
        cases hplace
    · intro hblocked
      obtain ⟨hnone, -⟩ | ⟨place, count, -, hwithin, hplace, -⟩ := hfirst
      · exact hnone
      · have hempty := (onRing?_eq_none_iff hbump hwidth hheight).mpr
          (hblocked (count + 1) (Nat.le_add_left 1 count) hwithin)
        rw [hempty] at hplace
        cases hplace
  · obtain ⟨hnone, -⟩ | ⟨found, count, hfound, hwithin, honRing, hearlier⟩ := hfirst
    · rw [hnone] at hplace
      cases hplace
    · obtain rfl : found = place := Option.some.inj (hfound.symm.trans hplace)
      obtain ⟨⟨position, haside, hbox⟩, hfree, hleader⟩ :=
        fitsOn_of_onRing? hbump hwidth hheight honRing
      have hradius : 0 ≤ ((count + 1 : Nat) : ℝ) * step := mul_nonneg (Nat.cast_nonneg _) hstep.le
      obtain ⟨hnearest, hdistance⟩ := leader_ringBox haside anchor hwidth hheight hradius
      refine ⟨count + 1, Nat.le_add_left 1 count, hwithin, fun smaller hone hless => ?_,
        ⟨position, haside, hbox⟩, hfree, ?_, ?_, ?_⟩
      · obtain ⟨earlier, rfl⟩ := Nat.exists_eq_add_of_le' hone
        exact (onRing?_eq_none_iff hbump hwidth hheight).mp
          (hearlier earlier (Nat.lt_of_succ_lt_succ hless))
      · rw [hleader]
        rfl
      · rwa [hleader, hbox]
      · rwa [hleader, hbox]

/-- Another label covers the first ring about a town and leaves the second one open to the north.
The label is placed on the second ring, ten away from the town. -/
theorem crowded_town_is_led_to_second_ring :
    let workspace : Workspace ℝ :=
      { Workspace.empty .standard with index := ⟨[⟨.label 2, ⟨⟨-8, -8⟩, ⟨8, 8⟩⟩⟩]⟩ }
    let town : Run ℝ :=
      .start workspace (.create 1 1 "town" (.point ⟨0, 0⟩) (.single "Ab") ⟨10, ⟨1, 1⟩⟩)
    town.IsBlocked ⟨0, 0⟩ town.extent.1 town.extent.2 5 ∧
      ∃ place, town.findLeader? none = some place ∧ place.leader.start = ⟨0, 0⟩ ∧
        (⟨0, 0⟩ : Point ℝ).distance place.leader.finish = 10 := by
  intro workspace town
  have hsize : town.Sizable := sizable_start rfl rfl (Nat.cast_nonneg 10)
  have hdiffers : 2 ≠ town.request.id := by decide
  have hentered : ⟨.label 2, ⟨⟨-8, -8⟩, ⟨8, 8⟩⟩⟩ ∈ town.workspace.index.entries :=
    List.mem_singleton_self _
  have hblocked : town.IsBlocked ⟨0, 0⟩ town.extent.1 town.extent.2 5 := by
    refine isBlocked_of_covered hentered hdiffers hsize.width hsize.height (by norm_num) ?_ ?_
    · norm_num
    · norm_num
  have hopen : town.conflicts (ringBox ⟨0, 0⟩ town.extent.1 town.extent.2 10 .north) = [] := by
    have hnorth : (Compass.displacement .north : Displacement ℝ) = ⟨0, 1⟩ := by
      simp only [Compass.displacement, Compass.direction]
      exact congrArg₂ Displacement.mk Nat.cast_zero Nat.cast_one
    have hbelow : (ringBox ⟨0, 0⟩ town.extent.1 town.extent.2 10 .north).lower.y = 10 := by
      simp only [ringBox, touchingPoint, hnorth, Displacement.length_eq_sqrt, Point.translate,
        Displacement.scale]
      norm_num
    have hclearance : town.clearance .label = 1 := by
      have hbuffer : town.request.buffer .label = 1 := rfl
      rw [clearance, Scalar.larger_eq_max, hbuffer, Scalar.numeral_eq, Nat.cast_zero]
      exact max_eq_left zero_le_one
    obtain ⟨spot, hholds, -⟩ := exists_holds_ringBox (by decide : Compass.north ≠ .onPoint) ⟨0, 0⟩
      hsize.width hsize.height (by norm_num : (0 : ℝ) ≤ 10)
    rw [conflicts_of_single rfl hdiffers, if_neg]
    intro hway
    rw [Box.expanded_of_nonneg hholds.isEmpty_eq (town.clearance_nonneg .label), hclearance] at hway
    refine (Box.intersects_iff.mp hway).2.2.below ?_
    change (8 : ℝ) ≤ (ringBox _ _ _ _ _).lower.y - 1
    rw [hbelow]
    norm_num
  have hstep : town.workspace.options.leaderStep = 5 := Nat.cast_ofNat
  have hmost : (none : Option ℝ).getD town.workspace.options.leaderMaxLength = 30 :=
    Nat.cast_ofNat
  have hanchor : town.request.shape.anchor? = some ⟨0, 0⟩ := rfl
  have hpositive : 0 < (none : Option ℝ).getD town.workspace.options.leaderMaxLength := by
    rw [hmost]
    norm_num
  have hsecond : ((2 : Nat) : ℝ) * 5 = 10 := by norm_num
  have hfree : ¬town.IsBlocked ⟨0, 0⟩ town.extent.1 town.extent.2 ((2 : Nat) * 5) := by
    rw [hsecond]
    exact fun hall => hall .north (by decide) hopen
  have hbump : town.relaxations.bump = false := rfl
  obtain ⟨-, hnone, hsome⟩ := leader_ends_on_smallest_ring hbump hanchor hsize.width hsize.height
    (by rw [hstep]; norm_num) hpositive
  rw [hstep, hmost] at hnone
  rw [hstep] at hsome
  refine ⟨hblocked, ?_⟩
  cases hplace : town.findLeader? none with
  | none => exact absurd (hnone.mp hplace 2 (by decide) (by norm_num)) hfree
  | some place =>
    obtain ⟨ring, hone, -, hsmaller, ⟨position, haside, hbox⟩, hclear, hstart, -, hdistance⟩ :=
      hsome place hplace
    obtain rfl | rfl | hlater : ring = 1 ∨ ring = 2 ∨ 2 < ring := by omega
    · rw [hbox, Nat.cast_one, one_mul] at hclear
      exact absurd hclear (hblocked position haside)
    · exact ⟨place, rfl, hstart, hdistance.trans hsecond⟩
    · exact absurd (hsmaller 2 (by decide) hlater) hfree

end Run

end LabelPlacement
