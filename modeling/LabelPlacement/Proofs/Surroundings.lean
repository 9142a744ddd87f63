import Mathlib.Analysis.SpecialFunctions.Complex.Arg
import LabelPlacement.Proofs.HullCorners
import LabelPlacement.Proofs.Rectangles
import LabelPlacement.Proofs.Rules

/-!
# Labels beside what they name

A label at a position around a hull stands beyond the point of the hull that lies farthest in the
direction of the position. All points of its rectangle lie farther in that direction than all points
of the hull, by the offset for each axis along which the position leads. So the line across the
direction parts the label from the region that the hull spans.
-/

namespace LabelPlacement

variable {points hull : List (Point ℝ)} {rotation : Rotation ℝ} {position : Compass}

/-! ### Regions -/

/-- The region that points span: the points themselves, and all that is on the way between two of
its points. -/
inductive Spanned (points : List (Point ℝ)) : Point ℝ → Prop
  | corner {point : Point ℝ} (hmem : point ∈ points) : Spanned points point
  | between {start finish point : Point ℝ} (hstart : Spanned points start)
      (hfinish : Spanned points finish) (hway : start.IsBetween finish point) :
      Spanned points point

theorem Spanned.exists_far {point : Point ℝ} (hspanned : Spanned points point)
    (direction : Displacement ℝ) :
    ∃ corner ∈ points, (Displacement.between corner point).dot direction ≤ 0 := by
  simp only [Displacement.dot_eq, Displacement.between]
  induction hspanned with
  | @corner point hmem => exact ⟨point, hmem, by simp⟩
  | @between start finish _ _ _ hway ihstart ihfinish =>
    obtain ⟨share, hshare, hone, rfl⟩ := hway
    simp only [Point.toward]
    obtain hfinish | hstart := le_total (start.x * direction.x + start.y * direction.y)
      (finish.x * direction.x + finish.y * direction.y)
    · obtain ⟨corner, hmem, hfar⟩ := ihfinish
      exact ⟨corner, hmem, by nlinarith⟩
    · obtain ⟨corner, hmem, hfar⟩ := ihstart
      exact ⟨corner, hmem, by nlinarith⟩

/-- Looking for the point of a hull that lies farthest in a direction finds one that lies at least
as far as all points of a list. -/
def Reaches (hull points : List (Point ℝ)) : Prop :=
  ∀ direction, ∃ far, supportPoint? hull direction = some far ∧
    ∀ point ∈ points, point.fromOrigin.dot direction ≤ far.fromOrigin.dot direction

theorem reaches_self (hhull : hull ≠ []) : Reaches hull hull := by
  intro direction
  obtain ⟨far, -, hfound, hall⟩ := exists_supportPoint? hhull direction
  exact ⟨far, hfound, hall⟩

theorem reaches_convexHull (hpoints : points ≠ []) : Reaches (convexHull points) points := by
  intro direction
  obtain ⟨far, -, hfound, hall⟩ :=
    (isHull_convexHull points).exists_supportPoint? hpoints direction
  exact ⟨far, hfound, hall⟩

/-! ### Positions around a hull -/

theorem Compass.one_le_squares (haside : position ≠ .onPoint) :
    1 ≤ (displacement position : Displacement ℝ).x * (displacement position : Displacement ℝ).x +
      (displacement position : Displacement ℝ).y * (displacement position : Displacement ℝ).y := by
  have hnone : (Scalar.ofInt 0 : ℝ) = 0 := Nat.cast_zero
  have hforth : (Scalar.ofInt 1 : ℝ) = 1 := Nat.cast_one
  have hback : (Scalar.ofInt (-1) : ℝ) = -1 := congrArg Neg.neg Nat.cast_one
  cases position <;> simp_all [displacement, direction]

/-- The anchor of a position lies as far in its direction as any point that the hull reaches. -/
theorem Reaches.le_compassAnchor (hreaches : Reaches hull points) (hunit : rotation.IsUnit)
    (haside : position ≠ .onPoint) (point : Point ℝ) {corner : Point ℝ} (hmem : corner ∈ points) :
    0 ≤ (Displacement.between corner (compassAnchor point hull position rotation)).dot
      (position.displacement.rotate rotation) := by
  set heading : Displacement ℝ := position.displacement.rotate rotation with hheading
  have hlong : 1 ≤ heading.length := by
    refine Real.one_le_sqrt.mpr ?_
    rw [Displacement.lengthSquared, hheading, Displacement.dot_rotate hunit]
    exact Compass.one_le_squares haside
  obtain ⟨direction, hdirection⟩ :=
    Displacement.exists_unit? (show 1e-9 < heading.length by linarith)
  obtain ⟨hpos, -, hscaled⟩ := Displacement.unit?_eq_some hdirection
  obtain ⟨far, hfound, hall⟩ := hreaches direction
  have hanchor : compassAnchor point hull position rotation = far := by
    rw [compassAnchor, ← hheading, hdirection]
    change (supportPoint? hull direction).getD point = far
    rw [hfound, Option.getD_some]
  rw [hanchor, ← hscaled]
  have hfar := mul_nonneg (sub_nonneg.mpr (hall corner hmem)) hpos.le
  refine hfar.trans_eq ?_
  simp only [Displacement.dot_eq, Displacement.between, Displacement.scale, Point.fromOrigin]
  ring

/-- How far a point aside of a moved anchor lies in a direction that is turned like it. -/
theorem dot_between_aside (hunit : rotation.IsUnit) (corner anchor : Point ℝ)
    (reach step : Displacement ℝ) (across up : ℝ) :
    (Displacement.between corner
        ((anchor.translate (reach.rotate rotation)).aside rotation across up)).dot
        (step.rotate rotation) =
      (Displacement.between corner anchor).dot (step.rotate rotation) +
        (⟨reach.x + across, reach.y + up⟩ : Displacement ℝ).dot step := by
  rw [← Displacement.dot_rotate hunit ⟨reach.x + across, reach.y + up⟩ step]
  simp only [Displacement.dot_eq, Displacement.between, Displacement.rotate, Point.translate,
    Point.aside]
  ring

/-- Along an axis, a rectangle that is half of its side and an offset away is the offset away, and
its inside is farther. -/
theorem le_step_mul {step : ℝ} (half offset aside : ℝ)
    (hstep : step = -1 ∨ step = 0 ∨ step = 1) :
    offset * |step| + |step| * (half - |aside|) ≤ (step * (half + offset) + aside) * step := by
  obtain rfl | rfl | rfl := hstep
  · rw [abs_neg, abs_one]
    linarith [le_abs_self aside]
  · simp
  · rw [abs_one]
    linarith [neg_abs_le aside]

/-- A point aside of the centre of a label lies beyond the hull by the offset along each axis of its
position, and by what it keeps from the sides of the label. -/
theorem Reaches.le_dot_between (hreaches : Reaches hull points) (haside : position ≠ .onPoint)
    (point : Point ℝ) (width height offset angle across up : ℝ) {corner : Point ℝ}
    (hmem : corner ∈ points) {step : Displacement ℝ} (hstep : step = position.displacement) :
    offset * (|step.x| + |step.y|) +
        (|step.x| * (width / 2 - |across|) + |step.y| * (height / 2 - |up|)) ≤
      (Displacement.between corner
        ((compassCandidate point hull position width height offset angle).center.aside
          (.ofAngle angle) across up)).dot (step.rotate (.ofAngle angle)) := by
  subst hstep
  set step : Displacement ℝ := position.displacement with hstep
  have hunit := Rotation.isUnit_ofAngle angle
  have hcenter : (compassCandidate point hull position width height offset angle).center =
      (compassAnchor point hull position (.ofAngle angle)).translate
        ((⟨step.x * (width / 2 + offset), step.y * (height / 2 + offset)⟩ :
          Displacement ℝ).rotate (.ofAngle angle)) := by
    rw [compassCandidate, if_neg haside, ← hstep]
    change Point.translate _ _ = _
    congr 3 <;> ring
  have hanchor := hreaches.le_compassAnchor hunit haside point hmem
  obtain ⟨hx, hy⟩ := position.step_displacement
  rw [← hstep] at hanchor hx hy
  have hacross := le_step_mul (width / 2) offset across hx
  have hup := le_step_mul (height / 2) offset up hy
  rw [hcenter, dot_between_aside hunit]
  calc offset * (|step.x| + |step.y|) +
        (|step.x| * (width / 2 - |across|) + |step.y| * (height / 2 - |up|))
      ≤ (step.x * (width / 2 + offset) + across) * step.x +
        (step.y * (height / 2 + offset) + up) * step.y := by linarith
    _ ≤ _ := le_add_of_nonneg_left hanchor

/-! ### Labels apart -/

theorem corners_compassCandidate (haside : position ≠ .onPoint) (point : Point ℝ)
    (width height offset angle : ℝ) :
    (compassCandidate point hull position width height offset angle).corners =
      Corners.ofCenter (compassCandidate point hull position width height offset angle).center
        width height (.ofAngle angle) := by
  rw [compassCandidate, if_neg haside]
  rfl

/-- No point inside a rectangle belongs to the region that points span. -/
def Corners.Apart (corners : Corners ℝ) (points : List (Point ℝ)) : Prop :=
  ∀ spot, corners.HoldsInside spot → ¬Spanned points spot

theorem Corners.apart_nil (corners : Corners ℝ) : corners.Apart [] := by
  intro spot _ hspanned
  obtain ⟨corner, hmem, -⟩ := hspanned.exists_far ⟨0, 0⟩
  exact List.not_mem_nil hmem

theorem Compass.pos_of_aside (haside : position ≠ .onPoint) {across up : ℝ} (hacross : 0 < across)
    (hup : 0 < up) :
    0 < |(displacement position : Displacement ℝ).x| * across +
      |(displacement position : Displacement ℝ).y| * up := by
  have hsquares := one_le_squares haside
  by_cases hx : (displacement position : Displacement ℝ).x = 0
  · have hy : (displacement position : Displacement ℝ).y ≠ 0 := by
      intro hy
      rw [hx, hy] at hsquares
      norm_num at hsquares
    exact add_pos_of_nonneg_of_pos (mul_nonneg (abs_nonneg _) hacross.le)
      (mul_pos (abs_pos.mpr hy) hup)
  · exact add_pos_of_pos_of_nonneg (mul_pos (abs_pos.mpr hx) hacross)
      (mul_nonneg (abs_nonneg _) hup.le)

theorem Reaches.apart_compassCandidate (hreaches : Reaches hull points)
    (haside : position ≠ .onPoint) (point : Point ℝ) {width height offset : ℝ} (hwidth : 0 ≤ width)
    (hheight : 0 ≤ height) (hoffset : 0 ≤ offset) (angle : ℝ) :
    (compassCandidate point hull position width height offset angle).corners.Apart points := by
  intro spot hinside hspanned
  rw [corners_compassCandidate haside,
    Corners.holdsInside_iff (Rotation.isUnit_ofAngle angle) hwidth hheight] at hinside
  obtain ⟨across, up, hacross, hup, rfl⟩ := hinside
  have hgap := Compass.pos_of_aside haside (sub_pos.mpr hacross) (sub_pos.mpr hup)
  have hsteps : 0 ≤ offset * (|(position.displacement : Displacement ℝ).x| +
      |(position.displacement : Displacement ℝ).y|) :=
    mul_nonneg hoffset (add_nonneg (abs_nonneg _) (abs_nonneg _))
  obtain ⟨corner, hmem, hfar⟩ := hspanned.exists_far (position.displacement.rotate (.ofAngle angle))
  have hbeyond := hreaches.le_dot_between haside point width height offset angle across up hmem rfl
  linarith

theorem Relaxations.offsetFactors_nonneg {relaxations : Relaxations ℝ} {factor : ℝ}
    (hmem : factor ∈ relaxations.offsetFactors) : 0 ≤ factor := by
  rw [offsetFactors] at hmem
  split at hmem
  · obtain rfl | hmem := List.mem_cons.mp hmem
    · exact Nat.cast_nonneg 2
    · rw [List.mem_singleton.mp hmem]
      exact Nat.cast_nonneg 3
  · rw [List.mem_singleton.mp hmem]
    exact Nat.cast_nonneg 1

/-- A label with these corners has been bumped aside from a candidate that something was in the way
of. -/
def Run.Bumps (run : Run ℝ) (candidate : Candidate ℝ) (corners : Corners ℝ) : Prop :=
  run.relaxations.bump = true ∧ run.conflicts candidate.bounds ≠ [] ∧
    ∃ displacement, corners = (candidate.translated displacement).corners

theorem Run.eq_or_bumps_of_resolve? {run : Run ℝ} {candidate resolved : Candidate ℝ}
    (hresolved : run.resolve? candidate = some resolved) :
    resolved = candidate ∨ run.Bumps candidate resolved.corners := by
  cases hbump : run.relaxations.bump with
  | false => exact Or.inl (Run.eq_of_resolve? hbump hresolved)
  | true =>
    rw [resolve?] at hresolved
    split at hresolved
    · exact Or.inl (Option.some.inj hresolved).symm
    · rename_i hconflicts
      rw [hbump, if_pos rfl] at hresolved
      split at hresolved
      · cases hresolved
      · rename_i displacement _
        obtain ⟨-, hmoved⟩ := Option.ite_none_right_eq_some.mp hresolved
        refine Or.inr ⟨hbump, hconflicts ▸ List.cons_ne_nil _ _, displacement, ?_⟩
        rw [Option.some.inj hmoved]
    · cases hresolved

/-- A label is placed at one of the candidates, or bumped aside from it. -/
theorem Run.apart_of_placeFirst {run after : Run ℝ} {suits : Candidate ℝ → Bool}
    {candidates : List (Candidate ℝ)}
    (hapart : ∀ candidate ∈ candidates, candidate.corners.Apart points)
    (hplaced : run.placeFirst suits candidates = (true, after)) :
    ∃ placed, after.request.placement = some placed ∧ (placed.corners.Apart points ∨
      ∃ candidate ∈ candidates, run.Bumps candidate placed.corners) := by
  obtain ⟨candidate, hmem, resolved, ideal, hsettled, rfl⟩ := Run.exists_of_placeFirst hplaced
  obtain ⟨-, hresolved, -⟩ := Run.resolve?_of_settle? hsettled
  refine ⟨_, rfl, ?_⟩
  obtain rfl | hbumped := Run.eq_or_bumps_of_resolve? hresolved
  · exact Or.inl (hapart resolved hmem)
  · exact Or.inr ⟨candidate, hmem, hbumped⟩

/-- A run whose label and whose gap to what it names have a size. -/
structure Run.Sizable (run : Run ℝ) : Prop where
  width : 0 ≤ run.extent.1
  height : 0 ≤ run.extent.2
  offset : 0 ≤ run.workspace.options.pointOffset

/-- With the standard settings, a single line of text has a size. -/
theorem Run.sizable_start {index : SpatialIndex ℝ} {request : Request ℝ} {line : String}
    (hlines : request.lines = [line]) (hsymbols : request.visibleSymbols = [])
    (hfont : 0 ≤ request.working.fontSize) :
    (Run.start { Workspace.empty .standard with index } request).Sizable := by
  have hextent : (Run.start { Workspace.empty .standard with index } request).extent =
      (Scalar.larger ((0 : ℕ) : ℝ) (Metrics.standard.width line request.working.fontSize),
        ((0 : ℕ) : ℝ) + (1.2 : ℝ) * request.working.fontSize) := by
    rw [Run.extent, Run.extentOf]
    change Run.withSymbols _ (Run.linesExtent _ request.working.fontSize request.lines)
      request.visibleSymbols = _
    rw [hlines, hsymbols]
    rfl
  refine ⟨?_, ?_, Nat.cast_nonneg 1⟩
  · rw [hextent, Scalar.larger_eq_max]
    exact (Nat.cast_nonneg 0).trans (le_max_left _ _)
  · rw [hextent]
    exact add_nonneg (Nat.cast_nonneg 0) (mul_nonneg (by norm_num) hfont)

theorem PointPlacement.apart_of_mem_candidates {placement : PointPlacement ℝ} {run : Run ℝ}
    (haside : .onPoint ∉ placement.positions) (hsizable : run.Sizable) (point : Point ℝ)
    {candidate : Candidate ℝ} (hmem : candidate ∈ placement.candidates run point hull) :
    candidate.corners.Apart hull := by
  obtain ⟨factor, hfactor, hmem⟩ := List.mem_flatMap.mp hmem
  obtain ⟨position, hposition, rfl⟩ := List.mem_map.mp hmem
  have hoffset : 0 ≤ run.workspace.options.pointOffset * factor :=
    mul_nonneg hsizable.offset (Relaxations.offsetFactors_nonneg hfactor)
  have hside : position ≠ .onPoint := ne_of_mem_of_not_mem hposition haside
  by_cases hhull : hull = []
  · rw [hhull]
    exact Corners.apart_nil _
  · exact (reaches_self hhull).apart_compassCandidate hside point hsizable.width hsizable.height
      hoffset _

theorem AreaPlacement.apart_of_mem_candidates {placement : AreaPlacement ℝ} {run : Run ℝ}
    (houtside : placement.strategy.isExterior = true) (hsizable : run.Sizable)
    {polygon : Polygon ℝ} {candidate : Candidate ℝ}
    (hmem : candidate ∈ placement.candidates run polygon) :
    candidate.corners.Apart polygon.vertices := by
  have hinner : placement.strategy.isInterior ≠ true := by
    cases hstrategy : placement.strategy <;> simp_all [AreaStrategy.isExterior,
      AreaStrategy.isInterior]
  simp only [candidates, if_neg hinner, if_pos houtside] at hmem
  obtain ⟨factor, hfactor, hmem⟩ := List.mem_flatMap.mp hmem
  obtain ⟨position, hposition, rfl⟩ := List.mem_map.mp hmem
  have hoffset : 0 ≤ run.workspace.options.pointOffset * factor :=
    mul_nonneg hsizable.offset (Relaxations.offsetFactors_nonneg hfactor)
  have hside : position ≠ .onPoint := ne_of_mem_of_not_mem hposition (by simp [Compass.around])
  by_cases hvertices : polygon.vertices = []
  · rw [hvertices]
    exact Corners.apart_nil _
  · exact (reaches_convexHull hvertices).apart_compassCandidate hside _ hsizable.width
      hsizable.height hoffset _

/-- **Labels beside what they name.** A label at a position around a hull, turned by any rotation,
lies farther in the direction of the position than the hull, by the offset for each axis along which
the position leads. So no label around a symbol runs into the hull of the symbol, nor does one
outside an area run into the region that the area spans, unless something was in its way and it has
been bumped aside. -/
theorem compass_labels_stand_apart :
    (∀ rotation : Rotation ℝ, rotation.IsUnit → ∃ angle, Rotation.ofAngle angle = rotation) ∧
    (∀ (point : Point ℝ) (hull : List (Point ℝ)) (position : Compass)
        (width height offset angle : ℝ),
      hull ≠ [] → position ≠ .onPoint → 0 ≤ width → 0 ≤ height → 0 ≤ offset →
      ∀ spot, (compassCandidate point hull position width height offset angle).corners.Holds spot →
        ∀ corner ∈ hull,
          offset * (|(position.displacement : Displacement ℝ).x| +
              |(position.displacement : Displacement ℝ).y|) ≤
            (Displacement.between corner spot).dot
              (position.displacement.rotate (.ofAngle angle))) ∧
    (∀ (placement : PointPlacement ℝ) (run : Run ℝ) (point : Point ℝ) (hull : List (Point ℝ)),
      .onPoint ∉ placement.positions → run.Sizable → run.request.shape = .point point →
      (run.request.symbol.elim (.ok []) fun symbol => symbol.shape.map (·.hull)) = .ok hull →
      (∀ candidate ∈ placement.candidates run point hull, candidate.corners.Apart hull) ∧
        ∀ after, placement.perform run = (.ok true, after) →
          ∃ placed, after.request.placement = some placed ∧ (placed.corners.Apart hull ∨
            ∃ candidate ∈ placement.candidates run point hull,
              run.Bumps candidate placed.corners)) ∧
    (∀ (placement : AreaPlacement ℝ) (run : Run ℝ) (polygon : Polygon ℝ),
      placement.strategy.isExterior = true → run.Sizable → run.request.shape = .area polygon →
      (∀ candidate ∈ placement.candidates run polygon,
        candidate.corners.Apart polygon.vertices) ∧
        ∀ after, placement.perform run = (true, after) →
          ∃ placed, after.request.placement = some placed ∧
            (placed.corners.Apart polygon.vertices ∨
              ∃ candidate ∈ placement.candidates run polygon,
                run.Bumps candidate placed.corners)) := by
  refine ⟨fun _ hunit => hunit.exists_ofAngle, ?_, ?_, ?_⟩
  · intro point hull position width height offset angle hhull haside hwidth hheight _ spot hholds
      corner hmem
    rw [corners_compassCandidate haside] at hholds
    obtain ⟨across, up, hacross, hup, rfl⟩ := hholds.exists_aside hwidth hheight
    have hbeyond := (reaches_self hhull).le_dot_between haside point width height offset angle
      across up hmem rfl
    refine le_trans (le_add_of_nonneg_right (add_nonneg ?_ ?_)) hbeyond
    · exact mul_nonneg (abs_nonneg _) (sub_nonneg.mpr hacross)
    · exact mul_nonneg (abs_nonneg _) (sub_nonneg.mpr hup)
  · intro placement run point hull haside hsizable hshape hhull
    have hcandidates : ∀ candidate ∈ placement.candidates run point hull,
        candidate.corners.Apart hull :=
      fun candidate hmem => PointPlacement.apart_of_mem_candidates haside hsizable point hmem
    refine ⟨hcandidates, fun after hplaced => ?_⟩
    rw [PointPlacement.perform, hshape] at hplaced
    simp only [hhull, Prod.mk.injEq, Except.ok.injEq] at hplaced
    exact Run.apart_of_placeFirst hcandidates (Prod.ext hplaced.1 hplaced.2)
  · intro placement run polygon houtside hsizable hshape
    have hcandidates : ∀ candidate ∈ placement.candidates run polygon,
        candidate.corners.Apart polygon.vertices :=
      fun candidate hmem =>
        AreaPlacement.apart_of_mem_candidates houtside hsizable hmem
    refine ⟨hcandidates, fun after hplaced => ?_⟩
    rw [AreaPlacement.perform, hshape] at hplaced
    simp only at hplaced
    split at hplaced
    · cases hplaced
    exact Run.apart_of_placeFirst hcandidates hplaced

/-- A label is placed beside the square symbol of a town, and clear of it. The candidates around a
square lake are clear of the lake. -/
theorem town_and_lake_labels_stand_apart :
    let square : List (Point ℝ) := [⟨0, 0⟩, ⟨4, 0⟩, ⟨4, 4⟩, ⟨0, 4⟩]
    let symbol : PointSymbol ℝ :=
      ⟨[.ofVertices square], some ⟨square, ⟨2, 2⟩, ⟨⟨0, 0⟩, ⟨4, 4⟩⟩⟩⟩
    let free (shape : Shape ℝ) : Request ℝ :=
      .create 1 1 "free" shape (.single "Ab") ⟨10, ⟨1, 1⟩⟩
    let town : Run ℝ :=
      .start (.empty .standard) { free (.point ⟨2, 2⟩) with symbol := some symbol }
    let lake : Run ℝ := .start (.empty .standard) (free (.area (.ofVertices square)))
    (∃ angle, Rotation.ofAngle angle = (⟨3 / 5, 4 / 5⟩ : Rotation ℝ)) ∧
    (∀ spot, (compassCandidate ⟨2, 2⟩ square .northEast 12 1 1 0).corners.Holds spot →
      1 * (|(Compass.northEast.displacement : Displacement ℝ).x| +
          |(Compass.northEast.displacement : Displacement ℝ).y|) ≤
        (Displacement.between ⟨4, 4⟩ spot).dot
          (Compass.northEast.displacement.rotate (.ofAngle 0))) ∧
    (∃ after placed, PointPlacement.around.perform town = (.ok true, after) ∧
      after.request.placement = some placed ∧ placed.corners.Apart square) ∧
    (∃ candidate ∈ AreaPlacement.candidates ⟨.exteriorHorizontal, 0⟩ lake (.ofVertices square),
      candidate.corners.Apart square) := by
  intro square symbol free town lake
  refine ⟨?_, ?_, ?_, ?_⟩
  · exact compass_labels_stand_apart.1 ⟨3 / 5, 4 / 5⟩ (by norm_num [Rotation.IsUnit])
  · intro spot hholds
    exact compass_labels_stand_apart.2.1 ⟨2, 2⟩ square .northEast 12 1 1 0 (by simp [square])
      (by decide) (by norm_num) (by norm_num) (by norm_num) spot hholds ⟨4, 4⟩ (by simp [square])
  · have hhull : (town.request.symbol.elim (.ok []) fun symbol => symbol.shape.map (·.hull)) =
        .ok square := rfl
    have hfree : ∀ bounds, town.conflicts bounds = [] := fun _ => rfl
    have hsome : PointPlacement.around.candidates town ⟨2, 2⟩ square ≠ [] := List.cons_ne_nil _ _
    obtain ⟨after, hplaced⟩ := Run.placeFirst_of_free hfree hsome
    have hperformed : PointPlacement.around.perform town = (.ok true, after) := by
      change (Except.ok (Run.placeFirst _ _ _).1, (Run.placeFirst _ _ _).2) = _
      rw [hplaced]
    have hsizable : town.Sizable := Run.sizable_start rfl rfl (Nat.cast_nonneg 10)
    obtain ⟨placed, hplacement, hapart⟩ :=
      (compass_labels_stand_apart.2.2.1 .around town ⟨2, 2⟩ square
        (by simp [PointPlacement.around, Compass.around]) hsizable rfl hhull).2 after hperformed
    refine ⟨after, placed, hperformed, hplacement, hapart.resolve_right ?_⟩
    rintro ⟨-, -, hbump, -⟩
    exact Bool.false_ne_true hbump
  · have hsizable : lake.Sizable := Run.sizable_start rfl rfl (Nat.cast_nonneg 10)
    obtain ⟨hcandidates, -⟩ := compass_labels_stand_apart.2.2.2 ⟨.exteriorHorizontal, 0⟩ lake
      (.ofVertices square) rfl hsizable rfl
    exact ⟨_, List.mem_cons_self, hcandidates _ List.mem_cons_self⟩

theorem AreaPlacement.perform_exterior {α : Type} [Trigonometric α] {run : Run α}
    {polygon : Polygon α} {hull : List (Point α)} (hshape : run.request.shape = .area polygon)
    (hmany : ¬polygon.vertices.length < 3) (hhull : convexHull polygon.vertices = hull) :
    AreaPlacement.perform ⟨.exteriorHorizontal, 0⟩ run =
      run.placeFirst (suitsArea .exteriorHorizontal polygon run.relaxations.overregion)
        (run.relaxations.offsetFactors.flatMap fun factor =>
          Compass.around.map fun position =>
            compassCandidate (polygon.centroid?.getD polygon.bounds.center) hull position
              run.extent.1 run.extent.2 (run.workspace.options.pointOffset * factor) 0) := by
  subst hhull
  rw [perform, hshape]
  dsimp only
  rw [if_neg hmany]
  rfl

/-- A label is bumped away from another one, onto the symbol that it was to stand above. The label
of a lake is bumped into the bay between two of its ends. -/
theorem bumped_labels_cover_hulls :
    let square : List (Point Rat) := [⟨0, 0⟩, ⟨4, 0⟩, ⟨4, 4⟩, ⟨0, 4⟩]
    let symbol : PointSymbol Rat :=
      ⟨[.ofVertices square], some ⟨square, ⟨2, 2⟩, ⟨⟨0, 0⟩, ⟨4, 4⟩⟩⟩⟩
    let town : Request Rat :=
      { Request.create 1 1 "town" (.point ⟨2, 2⟩) (.single "Ab") ⟨10, ⟨1, 1⟩⟩ with
        symbol := some symbol }
    let shore : List (Point Rat) := [⟨0, 0⟩, ⟨10, 60⟩, ⟨20, 25⟩, ⟨40, 40⟩]
    let lake : Request Rat :=
      .create 1 1 "lake" (.area (.ofVertices shore)) (.single "Ab") ⟨10, ⟨1, 1⟩⟩
    let bumping (request : Request Rat) (boxes : List (Occupied Rat)) : Run Rat :=
      { Run.start { Workspace.empty .standard with index := boxes.foldl .insert .empty }
          request with
        relaxations := { Relaxations.none with bump := true } }
    let above := PointPlacement.perform ⟨[.north], 0⟩
      (bumping town [⟨.label 9, ⟨⟨-11, 16⟩, ⟨1, 28⟩⟩⟩])
    let outside := AreaPlacement.perform ⟨.exteriorHorizontal, 0⟩
      (bumping lake [⟨.label 9, ⟨⟨41, -200⟩, ⟨90, 300⟩⟩⟩])
    let covers (hull : List (Point Rat)) (spot : Point Rat) (run : Run Rat) : Bool :=
      run.request.placement.any fun placed =>
        (Polygon.ofVertices placed.corners.toList).contains spot &&
          (Polygon.ofVertices hull).contains spot
    above.1.toOption = some true ∧ covers square ⟨2, 3.5⟩ above.2 = true ∧
      outside.1 = true ∧ covers (convexHull shore) ⟨29, 44⟩ outside.2 = true := by
  intro square symbol town shore lake bumping above outside covers
  have hsorted : shore.mergeSort Hull.comesBefore = shore :=
    List.mergeSort_of_pairwise (by decide +kernel)
  have hhull : convexHull shore = [⟨0, 0⟩, ⟨40, 40⟩, ⟨10, 60⟩] := by
    rw [convexHull, Hull.sorted, hsorted]
    decide +kernel
  have hmany : ¬(Polygon.ofVertices shore).vertices.length < 3 := by decide
  have houtside : outside = _ := AreaPlacement.perform_exterior rfl hmany hhull
  refine ⟨by decide +kernel, by decide +kernel, ?_⟩
  rw [houtside, hhull]
  exact ⟨by decide +kernel, by decide +kernel⟩

end LabelPlacement
