import Mathlib.Analysis.SpecialFunctions.Complex.Arg
import LabelPlacement.Proofs.Candidates
import LabelPlacement.Proofs.Clearance
import LabelPlacement.Proofs.Exact
import LabelPlacement.Proofs.Reals

/-!
# The rules of single commands

A label along a line stays on the line but for its overhang, a leader line keeps to its greatest
length, and a label of an area stands as the strategy demands. Commands check their candidates, and
a candidate that is bumped aside is another one: for areas it is checked again, for lines and
leaders it is not. So the rules of the latter hold for labels that are not bumped aside.
-/

namespace LabelPlacement

/-- How far a point lies along the straight way from one point to another. -/
def Point.along {α : Type} [Trigonometric α] (point start finish : Point α) : α :=
  (Displacement.between start point).dot (.between start finish) /
    (Displacement.between start finish).length

/-- The centre of a rectangle. -/
def Corners.centre {α : Type} [Scalar α] (corners : Corners α) : Point α :=
  corners.lowerLeft.midpoint corners.upperRight

/-! ### Candidates that stay where they are -/

section
variable {α : Type} [Trigonometric α] {run : Run α}

theorem Run.eq_of_resolve? (hbump : run.relaxations.bump = false)
    {candidate resolved : Candidate α} (hresolved : run.resolve? candidate = some resolved) :
    resolved = candidate := by
  rw [resolve?] at hresolved
  split at hresolved
  · exact (Option.some.inj hresolved).symm
  · rw [hbump, if_neg Bool.false_ne_true] at hresolved
    cases hresolved
  · cases hresolved

theorem Run.resolve?_of_conflicts_eq_nil {candidate : Candidate α}
    (hfree : run.conflicts candidate.bounds = []) : run.resolve? candidate = some candidate := by
  rw [resolve?, hfree]

/-- Where labels are not bumped aside, a candidate is accepted when nothing is in its way. -/
theorem Run.resolve?_eq_some_iff (hbump : run.relaxations.bump = false)
    {candidate resolved : Candidate α} :
    run.resolve? candidate = some resolved ↔
      resolved = candidate ∧ run.conflicts candidate.bounds = [] := by
  constructor
  · intro hresolved
    obtain rfl := eq_of_resolve? hbump hresolved
    exact ⟨rfl, conflicts_of_resolve? hresolved⟩
  · rintro ⟨rfl, hfree⟩
    exact resolve?_of_conflicts_eq_nil hfree

/-- A search for a place settles on a candidate. -/
theorem Run.exists_of_placeFirst {suits : Candidate α → Bool} {candidates : List (Candidate α)}
    {after : Run α} (hplaced : run.placeFirst suits candidates = (true, after)) :
    ∃ candidate ∈ candidates, ∃ resolved ideal, run.settle? suits candidate = some resolved ∧
      after = { run with ideal }.place resolved .placed none := by
  obtain ⟨ideal, ⟨candidate, hmem, resolved, hsettled, hfound⟩ | hnone⟩ :=
    run.placeFirst_cases suits candidates
  · rw [hplaced] at hfound
    exact ⟨candidate, hmem, resolved, ideal, hsettled, (Prod.mk.inj hfound).2⟩
  · rw [hplaced] at hnone
    cases hnone

theorem Run.resolve?_of_settle? {suits : Candidate α → Bool} {candidate resolved : Candidate α}
    (hsettled : run.settle? suits candidate = some resolved) :
    suits candidate = true ∧ run.resolve? candidate = some resolved ∧
      (resolved == candidate || suits resolved) = true := by
  rw [settle?] at hsettled
  split at hsettled
  · rename_i hsuits
    exact ⟨hsuits, Option.filter_eq_some_iff.mp hsettled⟩
  · cases hsettled

end

/-! ### Places along a straight line -/

theorem Corners.centre_ofCenter (centre : Point ℝ) (width height : ℝ) (rotation : Rotation ℝ) :
    (Corners.ofCenter centre width height rotation).centre = centre := by
  rw [Corners.centre, Point.midpoint, Corners.ofCenter]
  simp only [Point.rotateAbout, Point.translate, Displacement.between, Displacement.rotate]
  congr 1
  · ring_nf
  · ring_nf

section
variable {start finish : Point ℝ}

theorem Polyline.length_pair (start finish : Point ℝ) :
    Polyline.length [start, finish] = (Displacement.between start finish).length := by
  have hsum : Polyline.length [start, finish] = start.distance finish := by
    simp only [Polyline.length, openEdges, List.zip_cons_cons, List.zip_nil_right, List.foldl_cons,
      List.foldl_nil, Scalar.numeral_eq, Nat.cast_zero, zero_add]
  rw [hsum, Point.distance, Displacement.length_eq_sqrt, Displacement.length_eq_sqrt]
  apply congrArg Real.sqrt
  simp only [Displacement.between]
  ring

/-- The station at a position, kept within the line. -/
theorem Polyline.station_of_stationAt? {position : ℝ} {station : Station ℝ}
    (hstation : Polyline.stationAt? [start, finish] position = some station) :
    (Displacement.between start finish).unit? = some station.tangent ∧
      station.point = start.translate (station.tangent.scale
        (min (max position 0) (Displacement.between start finish).length)) := by
  simp only [stationAt?, openEdges, List.zip_cons_cons, List.zip_nil_right, Scalar.larger_eq_max,
    Scalar.numeral_eq, Nat.cast_zero, walk] at hstation
  split at hstation
  · cases hstation
  · rename_i tangent hunit
    split at hstation
    · rename_i hwithin
      obtain rfl := Option.some.inj hstation
      exact ⟨hunit, by rw [min_eq_left hwithin]⟩
    · rename_i hbeyond
      obtain rfl := Option.some.inj hstation
      refine ⟨hunit, ?_⟩
      rw [min_eq_right (le_of_lt (not_le.mp hbeyond)), (Displacement.unit?_eq_some hunit).2.2]
      simp only [Point.translate, Displacement.between, add_sub_cancel]

/-- Going aside leaves a point where it lies along the line. -/
theorem along_translate {tangent aside : Displacement ℝ}
    (hunit : (Displacement.between start finish).unit? = some tangent) (distance : ℝ)
    (haside : aside.dot tangent = 0) :
    ((start.translate (tangent.scale distance)).translate aside).along start finish = distance := by
  obtain ⟨hpos, hone, hscale⟩ := Displacement.unit?_eq_some hunit
  set length := (Displacement.between start finish).length
  have hdot : (Displacement.between start
      ((start.translate (tangent.scale distance)).translate aside)).dot (tangent.scale length) =
      distance * length := by
    simp only [Displacement.dot, Displacement.scale, Displacement.between, Point.translate]
      at haside hone ⊢
    calc _ = (distance * (tangent.x * tangent.x + tangent.y * tangent.y) +
          (aside.x * tangent.x + aside.y * tangent.y)) * length := by ring
      _ = distance * length := by rw [hone, haside, mul_one, add_zero]
  rw [hscale] at hdot
  rw [Point.along, hdot, mul_div_cancel_right₀ _ hpos.ne']

/-- A side of the line on which labels follow its direction. -/
def LineSide.followsLine : LineSide → Bool
  | above | below | middle => true
  | left | right => false

/-- Labels on these sides are centred where their station lies. -/
theorem along_lineCandidate {side : LineSide} (hside : side.followsLine = true)
    {station : Polyline.Station ℝ} {position : ℝ}
    (hunit : (Displacement.between start finish).unit? = some station.tangent)
    (hpoint : station.point = start.translate (station.tangent.scale position))
    (width height gap : ℝ) :
    (lineCandidate side station width height gap).corners.centre.along start finish =
      position := by
  have hparallel := cos_uprightAngle_mul station.tangent
  have hnormal : ∀ distance : ℝ,
      ((Displacement.leftNormal ⟨Trigonometric.cos (uprightAngle station.tangent.angle),
        Trigonometric.sin (uprightAngle station.tangent.angle)⟩).scale distance).dot
        station.tangent = 0 := by
    intro distance
    simp only [Displacement.dot, Displacement.scale, Displacement.leftNormal]
    linear_combination distance * hparallel
  cases side with
  | above | below =>
    simp only [lineCandidate, Candidate.create, Corners.centre_ofCenter, hpoint]
    exact along_translate hunit position (hnormal _)
  | middle =>
    simp only [lineCandidate, Candidate.create, Corners.centre_ofCenter, hpoint]
    have hzero : (⟨0, 0⟩ : Displacement ℝ).dot station.tangent = 0 := by
      simp only [Displacement.dot, zero_mul, add_zero]
    have hstays := along_translate hunit position hzero
    simpa only [Point.translate, add_zero] using hstays
  | left | right => cases hside

end

/-- A label of a width that is centred at a position of a line keeps within the line and the
overhang at both ends. -/
structure StaysWithin (length overhang width position : ℝ) : Prop where
  start : -overhang - 1e-9 ≤ position - width / 2
  finish : position + width / 2 ≤ length + overhang + 1e-9

theorem staysWithin_of_staysOnLine {length width overhang position : ℝ}
    (hstays : LinePlacement.staysOnLine length width overhang position = true) :
    StaysWithin length overhang width position := by
  have htolerance : (tolerance : ℝ) = 1e-9 := rfl
  simp only [LinePlacement.staysOnLine, htolerance, Bool.not_eq_true', Bool.or_eq_false_iff,
    decide_eq_false_iff_not, not_lt] at hstays
  constructor <;> linarith

/-- A position that is kept within the line is no farther out. -/
theorem StaysWithin.clamp {length overhang width position : ℝ}
    (hstays : StaysWithin length overhang width position) (hlength : 0 ≤ length) :
    StaysWithin length overhang width (min (max position 0) length) := by
  obtain ⟨hstart, hfinish⟩ := hstays
  rcases le_total position 0 with hbefore | hafter
  · rw [max_eq_right hbefore, min_eq_left hlength]
    constructor <;> linarith
  · rw [max_eq_left hafter]
    rcases le_total position length with hwithin | hbeyond
    · rw [min_eq_left hwithin]
      exact ⟨hstart, hfinish⟩
    · rw [min_eq_right hbeyond]
      constructor <;> linarith

/-- **Labels on lines.** A label that follows a straight line and is not bumped aside keeps within
the line but for the allowed overhang. -/
theorem LinePlacement.placed_within_line {placement : LinePlacement ℝ}
    (hside : placement.side.followsLine = true) {run after : Run ℝ} {start finish : Point ℝ}
    (hshape : run.request.shape = .line [start, finish]) (hbump : run.relaxations.bump = false)
    (hplaced : placement.perform run = (true, after)) :
    ∃ placed, after.request.placement = some placed ∧
      StaysWithin (Displacement.between start finish).length
        (allowedOverhang run.relaxations run.extent.1) run.extent.1
        (placed.corners.centre.along start finish) := by
  rw [perform, hshape] at hplaced
  simp only [Polyline.length_pair] at hplaced
  split at hplaced
  · cases hplaced
  obtain ⟨candidate, hmem, resolved, ideal, hsettled, rfl⟩ := Run.exists_of_placeFirst hplaced
  obtain ⟨-, hresolved, -⟩ := Run.resolve?_of_settle? hsettled
  obtain rfl := Run.eq_of_resolve? hbump hresolved
  refine ⟨_, rfl, ?_⟩
  obtain ⟨factor, -, hfactor⟩ := List.mem_flatMap.mp hmem
  obtain ⟨station, hstation, rfl⟩ := List.mem_map.mp hfactor
  obtain ⟨position, hposition, hstation⟩ := List.mem_filterMap.mp hstation
  have hstays := (List.mem_filter.mp hposition).2
  obtain ⟨hunit, hpoint⟩ := Polyline.station_of_stationAt? hstation
  rw [Polyline.length_pair] at hstays
  change StaysWithin _ _ _ ((lineCandidate _ _ _ _ _).corners.centre.along start finish)
  rw [along_lineCandidate hside hunit hpoint]
  exact (staysWithin_of_staysOnLine hstays).clamp (Displacement.length_nonneg _)

/-! ### Leader lines -/

theorem Compass.step_displacement (position : Compass) :
    ((Compass.displacement position : Displacement ℝ).x = -1 ∨
      (Compass.displacement position : Displacement ℝ).x = 0 ∨
      (Compass.displacement position : Displacement ℝ).x = 1) ∧
    ((Compass.displacement position : Displacement ℝ).y = -1 ∨
      (Compass.displacement position : Displacement ℝ).y = 0 ∨
      (Compass.displacement position : Displacement ℝ).y = 1) := by
  have hnone : (Scalar.ofInt 0 : ℝ) = 0 := Nat.cast_zero
  have hforth : (Scalar.ofInt 1 : ℝ) = 1 := Nat.cast_one
  have hback : (Scalar.ofInt (-1) : ℝ) = -1 := congrArg Neg.neg Nat.cast_one
  cases position <;> simp [displacement, direction, hnone, hforth, hback]

/-- Half a side further on from the middle of a side is still on it. -/
theorem mem_side_of_step {low high middle half step : ℝ} (hstep : step = -1 ∨ step = 0 ∨ step = 1)
    (hfirst : low ≤ middle - half ∧ middle - half ≤ high)
    (hsecond : low ≤ middle + half ∧ middle + half ≤ high) :
    low ≤ middle - step * half ∧ middle - step * half ≤ high := by
  rcases hstep with rfl | rfl | rfl
  · constructor <;> linarith
  · constructor <;> linarith
  · constructor <;> linarith

theorem Corners.ofCenter_upright (center : Point ℝ) (width height : ℝ) :
    (Corners.ofCenter center width height ⟨1, 0⟩).lowerLeft =
        ⟨center.x - width / 2, center.y - height / 2⟩ ∧
      (Corners.ofCenter center width height ⟨1, 0⟩).upperRight =
        ⟨center.x + width / 2, center.y + height / 2⟩ := by
  simp only [ofCenter, Point.rotateAbout, Point.translate, Displacement.between,
    Displacement.rotate]
  constructor
  · congr 1 <;> ring_nf
  · congr 1 <;> ring_nf

/-- The box of an upright rectangle holds the middle of each of its sides, and its corners. -/
theorem Box.holds_step (center : Point ℝ) (width height : ℝ) (position : Compass) :
    (Box.ofPoints (Corners.ofCenter center width height ⟨1, 0⟩).toList).Holds
      ⟨center.x - (Compass.displacement position).x * (width / 2),
        center.y - (Compass.displacement position).y * (height / 2)⟩ := by
  obtain ⟨hx, hy⟩ := position.step_displacement
  obtain ⟨hlowerLeft, hupperRight⟩ := Corners.ofCenter_upright center width height
  set corners := Corners.ofCenter center width height ⟨1, 0⟩
  have hfirst : (Box.ofPoints corners.toList).Holds corners.lowerLeft :=
    Box.holds_ofPoints List.mem_cons_self
  have hsecond : (Box.ofPoints corners.toList).Holds corners.upperRight :=
    Box.holds_ofPoints (by simp [Corners.toList])
  rw [hlowerLeft] at hfirst
  rw [hupperRight] at hsecond
  obtain ⟨hleft, hright⟩ :=
    mem_side_of_step hx ⟨hfirst.left, hfirst.right⟩ ⟨hsecond.left, hsecond.right⟩
  obtain ⟨hbelow, habove⟩ :=
    mem_side_of_step hy ⟨hfirst.below, hfirst.above⟩ ⟨hsecond.below, hsecond.above⟩
  exact ⟨hleft, hright, hbelow, habove⟩

theorem Point.distance_translate_scale (anchor : Point ℝ) {direction : Displacement ℝ}
    (hone : direction.x * direction.x + direction.y * direction.y = 1) {radius : ℝ}
    (hradius : 0 ≤ radius) :
    anchor.distance (anchor.translate (direction.scale radius)) = radius := by
  calc anchor.distance (anchor.translate (direction.scale radius))
      = √(radius * radius) := by
        apply congrArg Real.sqrt
        simp only [Displacement.lengthSquared, Displacement.dot, Displacement.between, translate,
          Displacement.scale]
        linear_combination radius * radius * hone
    _ = radius := Real.sqrt_mul_self hradius

/-- The near side of a candidate of a ring lies on the ring. -/
theorem Box.holds_leaderCandidate {anchor : Point ℝ} {width height radius : ℝ} {position : Compass}
    {candidate : Candidate ℝ}
    (hcandidate : leaderCandidate anchor width height radius position = some candidate) :
    ∃ direction, (Compass.displacement position : Displacement ℝ).unit? = some direction ∧
      candidate.bounds.Holds (anchor.translate (direction.scale radius)) := by
  obtain ⟨direction, hunit, rfl⟩ := Option.map_eq_some_iff.mp hcandidate
  refine ⟨direction, hunit, ?_⟩
  set onRing := anchor.translate (direction.scale radius)
  set step : Displacement ℝ := position.displacement with hstep
  set center := onRing.translate ⟨step.x * width * 0.5, step.y * height * 0.5⟩ with hcenter
  change (Box.ofPoints
    (Corners.ofCenter center width height (.ofAngle ((0 : Nat) : ℝ))).toList).Holds onRing
  have honRing : onRing = ⟨center.x - step.x * (width / 2), center.y - step.y * (height / 2)⟩ := by
    rw [hcenter, Point.translate]
    dsimp only
    generalize onRing = point
    obtain ⟨x, y⟩ := point
    congr 1 <;> ring
  rw [ofAngle_zero, honRing, hstep]
  exact Box.holds_step center width height position

theorem Run.distance_le_of_onRing? {run : Run ℝ} (hbump : run.relaxations.bump = false)
    {anchor : Point ℝ} {width height radius : ℝ} (hradius : 0 ≤ radius) {place : LeaderPlace ℝ}
    (hplace : run.onRing? anchor width height radius = some place) :
    place.leader.start.distance place.leader.finish ≤ radius := by
  obtain ⟨position, -, hposition⟩ := List.exists_of_findSome?_eq_some hplace
  split at hposition
  · cases hposition
  · rename_i candidate hcandidate
    obtain ⟨resolved, hresolved, rfl⟩ := Option.map_eq_some_iff.mp hposition
    obtain rfl := Run.eq_of_resolve? hbump hresolved
    obtain ⟨direction, hunit, hholds⟩ := Box.holds_leaderCandidate hcandidate
    obtain ⟨-, hone, -⟩ := Displacement.unit?_eq_some hunit
    calc anchor.distance (resolved.bounds.nearestTo anchor)
        ≤ anchor.distance (anchor.translate (direction.scale radius)) :=
          hholds.distance_nearestTo_le anchor
      _ = radius := anchor.distance_translate_scale hone hradius

theorem Run.distance_le_of_onRings? {run : Run ℝ} (hbump : run.relaxations.bump = false)
    {anchor : Point ℝ} {width height step maxRadius : ℝ} (hstep : 0 ≤ step) {rings : Nat}
    {radius : ℝ} (hradius : 0 ≤ radius) {place : LeaderPlace ℝ}
    (hplace : run.onRings? anchor width height step maxRadius rings radius = some place) :
    place.leader.start.distance place.leader.finish ≤ maxRadius := by
  induction rings generalizing radius with
  | zero => cases hplace
  | succ rings ih =>
    rw [onRings?] at hplace
    split at hplace
    · rename_i hwithin
      split at hplace
      · rename_i hring
        exact (distance_le_of_onRing? hbump hradius (hring.trans hplace)).trans hwithin
      · exact ih (add_nonneg hradius hstep) hplace
    · cases hplace

/-- **Leader lines.** A leader line to a label that is not bumped aside is no longer than is
allowed. -/
theorem Run.leader_within_reach {run : Run ℝ} (hbump : run.relaxations.bump = false)
    {maxLength : Option ℝ} {place : LeaderPlace ℝ}
    (hplace : run.findLeader? maxLength = some place) :
    place.leader.start.distance place.leader.finish ≤
      maxLength.getD run.workspace.options.leaderMaxLength + 1e-9 := by
  rw [findLeader?] at hplace
  split at hplace
  · cases hplace
  · simp only [Option.ite_none_left_eq_some, not_or, not_le, Scalar.numeral_eq, Nat.cast_zero]
      at hplace
    obtain ⟨⟨hstep, -⟩, hplace⟩ := hplace
    exact distance_le_of_onRings? hbump hstep.le hstep.le hplace

/-! ### Labels of areas -/

section
variable {α : Type} [Trigonometric α]

theorem Candidate.bounds_beq {candidate other : Candidate α}
    (hequal : (candidate == other) = true) :
    (candidate.bounds == other.bounds) = true := by
  obtain ⟨center, width, height, angle, corners, bounds⟩ := candidate
  obtain ⟨center', width', height', angle', corners', bounds'⟩ := other
  change (center == center' && (width == width' && (height == height' &&
    (angle == angle' && (corners == corners' && bounds == bounds'))))) = true at hequal
  simp only [Bool.and_eq_true] at hequal
  exact hequal.2.2.2.2.2

variable [LawfulScalar α] [LawfulEquality α] {run : Run α}

theorem Run.conflicts_congr {bounds other : Box α} (hsame : bounds.Indistinct other) :
    run.conflicts bounds = run.conflicts other := by
  have hreach : 0 ≤ Scalar.larger (run.clearance .label) (run.clearance .feature) :=
    LawfulScalar.le_trans (run.clearance_nonneg .label) (run.clearance_le_reach .label)
  have hquery : ∀ entry : Occupied α, (bounds.expanded
      (Scalar.larger (run.clearance .label) (run.clearance .feature))).intersects entry.bounds =
      (other.expanded
        (Scalar.larger (run.clearance .label) (run.clearance .feature))).intersects entry.bounds :=
    fun entry => hsame.intersects_expanded_eq hreach entry.bounds
  have hway : run.isInTheWay bounds = run.isInTheWay other := by
    funext entry
    rw [isInTheWay, isInTheWay]
    cases entry.owner with
    | label => simp only [hsame.intersects_expanded_eq (run.clearance_nonneg .label)]
    | feature => simp only [hsame.intersects_expanded_eq (run.clearance_nonneg .feature)]
  simp only [conflicts, SpatialIndex.query, hquery, hway]

/-- A candidate that is bumped aside is not equal to what it was. -/
theorem Run.eq_of_resolve?_of_beq {candidate resolved : Candidate α}
    (hresolved : run.resolve? candidate = some resolved)
    (hequal : (resolved == candidate) = true) : resolved = candidate := by
  have hfree := conflicts_of_resolve? hresolved
  rw [conflicts_congr (Box.indistinct_of_beq (Candidate.bounds_beq hequal))] at hfree
  rw [resolve?, hfree] at hresolved
  exact (Option.some.inj hresolved).symm

/-- **Labels of areas.** Whatever constraints are relaxed, a label of an area stands as the strategy
demands, bumped aside or not. -/
theorem AreaPlacement.placed_suits {placement : AreaPlacement α} {after : Run α}
    {polygon : Polygon α} (hshape : run.request.shape = .area polygon)
    (hplaced : placement.perform run = (true, after)) :
    ∃ candidate ideal, after = { run with ideal }.place candidate .placed none ∧
      suitsArea placement.strategy polygon run.relaxations.overregion candidate = true := by
  rw [perform, hshape] at hplaced
  simp only at hplaced
  split at hplaced
  · cases hplaced
  obtain ⟨candidate, -, resolved, ideal, hsettled, rfl⟩ := Run.exists_of_placeFirst hplaced
  obtain ⟨hsuits, hresolved, hchecked⟩ := Run.resolve?_of_settle? hsettled
  refine ⟨resolved, ideal, rfl, ?_⟩
  rcases Bool.or_eq_true_iff.mp hchecked with hequal | hagain
  · rwa [Run.eq_of_resolve?_of_beq hresolved hequal]
  · exact hagain

end

/-! ### Places where nothing is in the way -/

section
variable {α : Type} [Trigonometric α] {run : Run α}

/-- Where nothing is in the way, the first candidate is taken. -/
theorem Run.placeFirst_of_free (hfree : ∀ bounds, run.conflicts bounds = [])
    {candidates : List (Candidate α)} (hsome : candidates ≠ []) :
    ∃ after, run.placeFirst (fun _ => true) candidates = (true, after) := by
  obtain ⟨first, rest, rfl⟩ := List.exists_cons_of_ne_nil hsome
  have hsettled : run.settle? (fun _ => true) first = some first := by
    simp [settle?, resolve?_of_conflicts_eq_nil (hfree first.bounds)]
  rw [placeFirst, List.findSome?_cons, hsettled]
  exact ⟨_, rfl⟩

/-- Where something is in the way of every candidate, none is taken. -/
theorem Run.placeFirst_of_blocked (hbump : run.relaxations.bump = false)
    {candidates : List (Candidate α)}
    (hblocked : ∀ candidate ∈ candidates, run.conflicts candidate.bounds ≠ [])
    (suits : Candidate α → Bool) :
    ∃ ideal, run.placeFirst suits candidates = (false, { run with ideal }) := by
  obtain ⟨ideal, ⟨candidate, hmem, resolved, hsettled, -⟩ | hnone⟩ :=
    run.placeFirst_cases suits candidates
  · obtain ⟨-, hresolved, -⟩ := resolve?_of_settle? hsettled
    exact absurd ((resolve?_eq_some_iff hbump).mp hresolved).2 (hblocked candidate hmem)
  · exact ⟨ideal, hnone⟩

end

/-- Two boxes overlap if one of them holds a point that is inside of the other one. -/
theorem Box.Holds.intersects {box other : Box ℝ} {spot : Point ℝ} (hholds : box.Holds spot)
    (hx : other.lower.x < spot.x ∧ spot.x < other.upper.x)
    (hy : other.lower.y < spot.y ∧ spot.y < other.upper.y) : box.intersects other = true := by
  have hother : other.Holds spot := ⟨hx.1.le, hx.2.le, hy.1.le, hy.2.le⟩
  refine Box.intersects_iff.mpr ⟨hholds.isEmpty_eq, hother.isEmpty_eq, ?_, ?_, ?_, ?_⟩
  · exact not_le.mpr (hx.1.trans_le hholds.right)
  · exact not_le.mpr (hholds.left.trans_lt hx.2)
  · exact not_le.mpr (hy.1.trans_le hholds.above)
  · exact not_le.mpr (hholds.below.trans_lt hy.2)

/-- A label is in the way of bounds that hold a point inside of its box. -/
theorem Run.conflicts_ne_nil_of_holds {run : Run ℝ} {other : Nat} {bounds box : Box ℝ}
    {spot : Point ℝ} (hentered : ⟨.label other, box⟩ ∈ run.workspace.index.entries)
    (hother : other ≠ run.request.id) (hholds : bounds.Holds spot)
    (hx : box.lower.x < spot.x ∧ spot.x < box.upper.x)
    (hy : box.lower.y < spot.y ∧ spot.y < box.upper.y) : run.conflicts bounds ≠ [] := by
  intro hfree
  have hapart := not_intersects_label hfree hentered hother
  rw [Box.intersects_expanded (run.clearance_nonneg .label) (hholds.intersects hx hy)] at hapart
  cases hapart

theorem Displacement.exists_unit? {displacement : Displacement ℝ}
    (hlong : 1e-9 < displacement.length) : ∃ direction, displacement.unit? = some direction := by
  have hgap : ¬displacement.length ≤ Scalar.unitGap := by
    change ¬displacement.length ≤ 2.220446049250313e-16
    norm_num at hlong ⊢
    linarith
  exact ⟨_, if_neg hgap⟩

/-- Along a free line a label is placed if it stays on the line at a position of the search. -/
theorem LinePlacement.perform_of_free {placement : LinePlacement ℝ} {run : Run ℝ}
    {start finish : Point ℝ} (hshape : run.request.shape = .line [start, finish])
    (hfree : ∀ bounds, run.conflicts bounds = [])
    (hlong : 1e-9 < (Displacement.between start finish).length) {position : ℝ}
    (hposition : position ∈ placement.positions run.workspace.options.lineSearchStep
      (Displacement.between start finish).length run.extent.1)
    (hstays : staysOnLine (Displacement.between start finish).length run.extent.1
      (allowedOverhang run.relaxations run.extent.1) position = true) :
    ∃ after, placement.perform run = (true, after) := by
  have hnot : ¬Polyline.length [start, finish] ≤ tolerance := by
    rw [Polyline.length_pair]
    exact not_le.mpr hlong
  obtain ⟨direction, hunit⟩ := Displacement.exists_unit? hlong
  have hstation : ∃ station, Polyline.stationAt? [start, finish] position = some station := by
    simp only [Polyline.stationAt?, openEdges, List.zip_cons_cons, List.zip_nil_right,
      Polyline.walk, hunit]
    split
    · exact ⟨_, rfl⟩
    · exact ⟨_, rfl⟩
  obtain ⟨station, hstation⟩ := hstation
  rw [perform, hshape]
  simp only [hnot, if_false]
  apply Run.placeFirst_of_free hfree
  obtain ⟨factor, hfactor⟩ := List.exists_mem_of_ne_nil _ run.relaxations.offsetFactors_ne_nil
  rw [candidates, candidatesAt]
  simp only [Polyline.length_pair]
  refine List.ne_nil_of_mem (List.mem_flatMap.mpr
    ⟨factor, hfactor, List.mem_map.mpr ⟨station, ?_, rfl⟩⟩)
  exact List.mem_filterMap.mpr ⟨position, List.mem_filter.mpr ⟨hposition, hstays⟩, hstation⟩

/-- A leader line that may be as long as one step is found where nothing is in the way. -/
theorem Run.findLeader?_of_free {run : Run ℝ} {anchor : Point ℝ}
    (hanchor : run.request.shape.anchor? = some anchor)
    (hfree : ∀ bounds, run.conflicts bounds = []) (hstep : 0 < run.workspace.options.leaderStep)
    {maxLength : Option ℝ}
    (hmax : run.workspace.options.leaderStep ≤
      maxLength.getD run.workspace.options.leaderMaxLength) :
    ∃ place, run.findLeader? maxLength = some place := by
  have hdiagonal : ∃ direction,
      (Compass.displacement .northEast : Displacement ℝ).unit? = some direction := by
    apply Displacement.exists_unit?
    have hone : (Scalar.ofInt 1 : ℝ) = 1 := Nat.cast_one
    rw [Displacement.length_eq_sqrt]
    apply Real.lt_sqrt_of_sq_lt
    simp only [Compass.displacement, Compass.direction, hone]
    norm_num
  obtain ⟨direction, hdirection⟩ := hdiagonal
  have hring : ∃ place, run.onRing? anchor run.extent.1 run.extent.2
      run.workspace.options.leaderStep = some place := by
    rw [onRing?, Compass.around, List.findSome?_cons, leaderCandidate, hdirection]
    simp only [Option.map_some, resolve?_of_conflicts_eq_nil (hfree _)]
    exact ⟨_, rfl⟩
  obtain ⟨place, hring⟩ := hring
  have hpos : 0 < maxLength.getD run.workspace.options.leaderMaxLength := hstep.trans_le hmax
  have hwithin : run.workspace.options.leaderStep ≤
      maxLength.getD run.workspace.options.leaderMaxLength + tolerance := by
    have htolerance : (tolerance : ℝ) = 1e-9 := rfl
    rw [htolerance]
    linarith
  refine ⟨place, ?_⟩
  rw [findLeader?, hanchor]
  simp only [Scalar.numeral_eq, Nat.cast_zero, not_le.mpr hstep, not_le.mpr hpos, or_self,
    if_false, onRings?, hwithin, if_true, hring]

theorem Scalar.clamp_of_mem {low high value : ℝ} (hlow : low ≤ value) (hhigh : value ≤ high) :
    clamp value low high = value := by
  simp only [clamp, not_lt.mpr hlow, if_false, not_lt.mpr hhigh]

/-! ### Rules and relaxations -/

/-- **The rules under relaxed constraints.** Where labels are not bumped aside, a label that follows
a straight line keeps within it but for the overhang, and a leader line is no longer than allowed.
Labels of areas stand as their strategy demands even when they are bumped aside. -/
theorem relaxed_rules_hold {α : Type} [Trigonometric α] [LawfulScalar α] [LawfulEquality α]
    (unbumped : Run ℝ) (hbump : unbumped.relaxations.bump = false) (run : Run α) :
    (∀ (placement : LinePlacement ℝ) (after : Run ℝ) (start finish : Point ℝ),
      placement.side.followsLine = true → unbumped.request.shape = .line [start, finish] →
      placement.perform unbumped = (true, after) →
        ∃ placed, after.request.placement = some placed ∧
          StaysWithin (Displacement.between start finish).length
            (LinePlacement.allowedOverhang unbumped.relaxations unbumped.extent.1)
            unbumped.extent.1 (placed.corners.centre.along start finish)) ∧
    (∀ (maxLength : Option ℝ) (place : LeaderPlace ℝ),
      unbumped.findLeader? maxLength = some place →
        place.leader.start.distance place.leader.finish ≤
          maxLength.getD unbumped.workspace.options.leaderMaxLength + 1e-9) ∧
    (∀ (placement : AreaPlacement α) (after : Run α) (polygon : Polygon α),
      run.request.shape = .area polygon → placement.perform run = (true, after) →
        ∃ candidate ideal, after = { run with ideal }.place candidate .placed none ∧
          suitsArea placement.strategy polygon run.relaxations.overregion candidate = true) := by
  refine ⟨?_, ?_, ?_⟩
  · intro placement after start finish hside hshape hplaced
    exact LinePlacement.placed_within_line hside hshape hbump hplaced
  · intro maxLength place hplace
    exact Run.leader_within_reach hbump hplace
  · intro placement after polygon hshape hplaced
    exact AreaPlacement.placed_suits hshape hplaced

/-- A free road is labelled within its ends, and a free town gets a leader line in reach. A label in
the middle of a lake is bumped aside by another one and stays inside. -/
theorem road_town_and_lake_keep_rules :
    let free (shape : Shape ℝ) : Run ℝ :=
      .start (.empty .standard) (.create 1 1 "free" shape (.single "Ab") ⟨10, ⟨1, 1⟩⟩)
    let road : Run ℝ := free (.line [⟨0, 0⟩, ⟨20, 0⟩])
    let centred : LinePlacement ℝ :=
      ⟨.middle, ⟨10, .absolute⟩, ⟨10, .absolute⟩, ⟨10, .absolute⟩⟩
    let shore : Polygon Rat := .ofVertices [⟨0, 0⟩, ⟨60, 0⟩, ⟨60, 60⟩, ⟨0, 60⟩]
    let labelled : Workspace Rat :=
      { Workspace.empty .standard with
          index := .insert .empty ⟨.label 9, ⟨⟨30, 20⟩, ⟨40, 40⟩⟩⟩ }
    let start : Run Rat :=
      .start labelled (.create 1 1 "lake" (.area shore) (.single "Ab") ⟨10, ⟨1, 1⟩⟩)
    let lake : Run Rat := { start with relaxations := { Relaxations.none with bump := true } }
    (∃ after placed, centred.perform road = (true, after) ∧
      after.request.placement = some placed ∧
      StaysWithin (Displacement.between (⟨0, 0⟩ : Point ℝ) ⟨20, 0⟩).length
        (LinePlacement.allowedOverhang road.relaxations road.extent.1) road.extent.1
        (placed.corners.centre.along ⟨0, 0⟩ ⟨20, 0⟩)) ∧
    (∃ place, (free (.point ⟨0, 0⟩)).findLeader? none = some place ∧
      place.leader.start.distance place.leader.finish ≤ 30 + 1e-9) ∧
    ((AreaPlacement.perform ⟨.interiorHorizontal, 0⟩ lake).1 = true ∧ ∃ candidate ideal,
      (AreaPlacement.perform ⟨.interiorHorizontal, 0⟩ lake).2 =
        { lake with ideal }.place candidate .placed none ∧
      suitsArea .interiorHorizontal shore false candidate = true) := by
  intro free road centred shore labelled start lake
  refine ⟨?_, ?_, ?_⟩
  · have hlength : (Displacement.between (⟨0, 0⟩ : Point ℝ) ⟨20, 0⟩).length = 20 := by
      rw [Displacement.length_eq_sqrt, Real.sqrt_eq_iff_mul_self_eq_of_pos (by norm_num)]
      simp only [Displacement.between]
      norm_num
    have hwidth : road.extent.1 = 12 := by
      have hline : road.workspace.metrics.width "Ab" road.request.working.fontSize = 12 := by
        change ((2 : Nat) : ℝ) * (0.6 : ℝ) * ((10 : ℕ) : ℝ) = ((12 : ℕ) : ℝ)
        norm_num
      have hlines : road.request.lines = ["Ab"] := rfl
      have hsymbols : road.request.visibleSymbols = [] := rfl
      rw [Run.extent, Run.extentOf, hlines, hsymbols]
      simp only [Run.linesExtent, Run.withSymbols, List.foldl_cons, List.foldl_nil,
        Scalar.larger_eq_max, hline, Scalar.numeral_eq, Nat.cast_zero]
      norm_num
    have hten : (⟨10, .absolute⟩ : LinePosition ℝ).resolve 20 = 10 := by
      rw [LinePosition.resolve, Scalar.larger_eq_max]
      have hrange : ((0 : ℕ) : ℝ) ≤ ((10 : ℕ) : ℝ) ∧
          ((10 : ℕ) : ℝ) ≤ max ((20 : ℕ) : ℝ) ((0 : ℕ) : ℝ) := by norm_num
      exact Scalar.clamp_of_mem hrange.1 hrange.2
    have hcentre : (10 : ℝ) ∈ centred.positions road.workspace.options.lineSearchStep
        (Displacement.between (⟨0, 0⟩ : Point ℝ) ⟨20, 0⟩).length road.extent.1 := by
      have hclamped : Scalar.clamp (10 : ℝ) (Scalar.smaller 10 10) (Scalar.larger 10 10) = 10 := by
        simp [Scalar.clamp, Scalar.smaller, Scalar.larger]
      rw [hlength, LinePlacement.positions, LinePlacement.searchRange, hten, hclamped]
      exact List.mem_cons_self
    have hstays : LinePlacement.staysOnLine
        (Displacement.between (⟨0, 0⟩ : Point ℝ) ⟨20, 0⟩).length road.extent.1
        (LinePlacement.allowedOverhang road.relaxations road.extent.1) 10 = true := by
      have hnone : LinePlacement.allowedOverhang road.relaxations 12 = 0 := Nat.cast_zero
      have htolerance : (tolerance : ℝ) = 1e-9 := rfl
      rw [hlength, hwidth, hnone, LinePlacement.staysOnLine, htolerance, Bool.not_eq_true',
        Bool.or_eq_false_iff, decide_eq_false_iff_not, decide_eq_false_iff_not]
      norm_num
    obtain ⟨after, hplaced⟩ := LinePlacement.perform_of_free rfl (fun _ => rfl)
      (by rw [hlength]; norm_num) hcentre hstays
    obtain ⟨placed, hplacement, hwithin⟩ :=
      (relaxed_rules_hold road rfl lake).1 centred after ⟨0, 0⟩ ⟨20, 0⟩ rfl rfl hplaced
    exact ⟨after, placed, hplaced, hplacement, hwithin⟩
  · have hstep : (0 : ℝ) < PlacementOptions.standard.leaderStep := by
      change (0 : ℝ) < ((5 : ℕ) : ℝ)
      norm_num
    have hmost : (PlacementOptions.standard.leaderStep : ℝ) ≤
        (none : Option ℝ).getD PlacementOptions.standard.leaderMaxLength := by
      change ((5 : ℕ) : ℝ) ≤ ((30 : ℕ) : ℝ)
      norm_num
    obtain ⟨place, hplace⟩ : ∃ place, (free (.point ⟨0, 0⟩)).findLeader? none = some place :=
      Run.findLeader?_of_free rfl (fun _ => rfl) hstep hmost
    exact ⟨place, hplace,
      (relaxed_rules_hold (free (.point ⟨0, 0⟩)) rfl lake).2.1 none place hplace⟩
  · have hsettled : (AreaPlacement.perform ⟨.interiorHorizontal, 0⟩ lake).1 = true := by
      decide +kernel
    exact ⟨hsettled, (relaxed_rules_hold road rfl lake).2.2 ⟨.interiorHorizontal, 0⟩ _ shore rfl
      (Prod.ext hsettled rfl)⟩

/-- With bumping, a label in the way moves the label of a road beyond its end, and boxes in the way
move the label of a town farther out than its leader line may reach. -/
theorem bumped_road_and_town_break_rules :
    let road : Request Rat :=
      .create 1 1 "road" (.line [⟨0, 0⟩, ⟨20, 0⟩]) (.single "Ab") ⟨10, ⟨1, 1⟩⟩
    let town : Request Rat := .create 1 1 "town" (.point ⟨0, 0⟩) (.single "Ab") ⟨10, ⟨1, 1⟩⟩
    let bumping (request : Request Rat) (boxes : List (Occupied Rat)) : Run Rat :=
      { Run.start { Workspace.empty .standard with index := boxes.foldl .insert .empty }
          request with
        relaxations := { Relaxations.none with bump := true } }
    let crowded := bumping road [⟨.label 99, ⟨⟨-10, -50⟩, ⟨14, 50⟩⟩⟩]
    let enclosed := bumping town
      [⟨.label 99, ⟨⟨-40, -50⟩, ⟨14, 3⟩⟩⟩, ⟨.feature 7 .point, ⟨⟨0, 7⟩, ⟨40, 40⟩⟩⟩]
    ((LinePlacement.onSide .middle).perform crowded).1 = true ∧
      (((LinePlacement.onSide .middle).perform crowded).2.request.placement.any fun placed =>
        decide (20 + 1e-9 <
          placed.corners.centre.along ⟨0, 0⟩ ⟨20, 0⟩ + crowded.extent.1 / 2)) = true ∧
      ((enclosed.findLeader? (some 5)).any fun place =>
        decide (5 + 1e-9 < place.leader.start.distance place.leader.finish)) = true := by
  intro road town bumping crowded enclosed
  refine ⟨?_, ?_, ?_⟩
  · decide +kernel
  · decide +kernel
  · decide +kernel

end LabelPlacement
