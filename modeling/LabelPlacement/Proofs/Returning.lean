import Mathlib.Analysis.SpecialFunctions.Complex.Arg
import LabelPlacement.Proofs.Candidates
import LabelPlacement.Proofs.Endings
import LabelPlacement.Proofs.Positions
import LabelPlacement.Proofs.Sizes

/-!
# Coming back

With exact numbers every command comes back, and every sequence and every map with it
(`Sequence.ending_start`, `LabelMap.labelEnding_eq`). No search outruns the number of rounds that
its definition allows it: the fronts along a line get to the ends of the range and the rings get to
the greatest radius. No number is brought into a range that is the wrong way round: all boxes that a
leader line ends at were made around corners (`Run.NotesOrdered`).
-/

namespace LabelPlacement

/-! ### Searches along lines -/

section
variable {initial start finish step : ℝ} {rounds other : Nat}

/-- Two numbers of rounds that both get to the end of the range find the same. -/
theorem positionsAhead_eq {count last : Nat}
    (hreached : finish - tolerance ≤ initial + last * step) (habove : count ≤ last)
    (hrounds : last < count + rounds) (hother : last < count + other) :
    positionsAhead initial finish step rounds count =
      positionsAhead initial finish step other count := by
  induction rounds generalizing count other with
  | zero => omega
  | succ rounds ih =>
    cases other with
    | zero => omega
    | succ other =>
      rw [positionsAhead_succ, positionsAhead_succ]
      split
      · rfl
      · rename_i hshort
        have hnext : count ≠ last := by
          rintro rfl
          exact hshort hreached
        rw [ih (by omega) (by omega) (by omega : last < count + 1 + other)]

/-- The number of rounds is enough for the front ahead. -/
def EndsAhead (initial finish step : ℝ) (rounds : Nat) : Prop :=
  initial < finish - tolerance →
    ∃ count : Nat, 1 ≤ count ∧ count ≤ rounds ∧ finish - tolerance ≤ initial + count * step

theorem frontAhead_eq (hrounds : EndsAhead initial finish step rounds)
    (hother : EndsAhead initial finish step other) :
    frontAhead initial finish step rounds = frontAhead initial finish step other := by
  rw [frontAhead, frontAhead]
  split
  · rename_i hopen
    obtain ⟨first, hone, hfirst, hreached⟩ := hrounds hopen
    obtain ⟨second, hsecond, hsecondLe, hreachedSecond⟩ := hother hopen
    obtain hle | hle := Nat.le_total first second
    · exact positionsAhead_eq hreached hone (by omega) (by omega)
    · exact positionsAhead_eq hreachedSecond hsecond (by omega) (by omega)
  · rfl

end

namespace SearchRange

variable {range : SearchRange ℝ} {rounds other : Nat}

theorem endsWithin_iff :
    range.EndsWithin rounds ↔
      EndsAhead range.initial range.finish range.step rounds ∧
        EndsAhead (-range.initial) (-range.start) range.step rounds := by
  refine and_congr Iff.rfl ?_
  have hopen : range.start + tolerance < range.initial ↔
      -range.initial < -range.start - tolerance := by
    constructor <;> intro hlt <;> linarith
  have hreached (count : Nat) : range.initial - count * range.step ≤ range.start + tolerance ↔
      -range.start - tolerance ≤ -range.initial + count * range.step := by
    constructor <;> intro hle <;> linarith
  exact imp_congr hopen
    (exists_congr fun count => and_congr_right' (and_congr_right' (hreached count)))

theorem positionsWithin_eq (hrounds : range.EndsWithin rounds) (hother : range.EndsWithin other) :
    positionsWithin range.initial range.start range.finish range.step rounds =
      positionsWithin range.initial range.start range.finish range.step other := by
  rw [endsWithin_iff] at hrounds hother
  change range.initial :: alternate (frontAhead range.initial range.finish range.step rounds)
      (frontBehind range.initial range.start range.step rounds) =
    range.initial :: alternate (frontAhead range.initial range.finish range.step other)
      (frontBehind range.initial range.start range.step other)
  rw [frontAhead_eq hrounds.1 hother.1, frontBehind_eq_map, frontBehind_eq_map,
    frontAhead_eq hrounds.2 hother.2]

/-- **A search along a line.** It gets to both ends of its range in as many rounds as it is bounded
by. -/
theorem endsWithin_roundBound (hstep : 0 < range.step) (hstart : range.start ≤ range.initial)
    (hfinish : range.initial ≤ range.finish) :
    range.EndsWithin (roundBound range.start range.finish range.step) := by
  have hreach := range_le_roundBound_mul range.start range.finish hstep
  have hone : 1 ≤ roundBound range.start range.finish range.step := Nat.le_add_left 1 _
  rw [endsWithin_iff]
  refine ⟨fun _ => ⟨_, hone, le_rfl, ?_⟩, fun _ => ⟨_, hone, le_rfl, ?_⟩⟩
  · linarith [tolerance_pos]
  · linarith [tolerance_pos]

theorem ending_eq (hstep : 0 < range.step) (hstart : range.start ≤ range.initial)
    (hfinish : range.initial ≤ range.finish) :
    range.ending =
      .result (searchPositions range.initial range.start range.finish range.step) := by
  rw [ending, if_pos (hstart.trans hfinish)]
  exact Ending.ofRounds_eq_result (fun _ _ => positionsWithin_eq)
    (endsWithin_roundBound hstep hstart hfinish)

end SearchRange

namespace LinePlacement

theorem searchRange_mem (placement : LinePlacement ℝ) (searchStep length width : ℝ) :
    (placement.searchRange searchStep length width).start ≤
        (placement.searchRange searchStep length width).initial ∧
      (placement.searchRange searchStep length width).initial ≤
        (placement.searchRange searchStep length width).finish := by
  apply Scalar.clamp_mem
  change Scalar.smaller (placement.minimum.resolve length) (placement.maximum.resolve length) ≤
    Scalar.larger (placement.minimum.resolve length) (placement.maximum.resolve length)
  rw [Scalar.smaller_eq_min, Scalar.larger_eq_max]
  exact min_le_max

theorem searchRange_step_pos (placement : LinePlacement ℝ) (searchStep width : ℝ) {length : ℝ}
    (hlength : 0 < length) : 0 < (placement.searchRange searchStep length width).step := by
  change 0 < Scalar.larger (width * searchStep) (length / ((100 : Nat) : ℝ))
  rw [Scalar.larger_eq_max]
  exact lt_max_of_lt_right (div_pos hlength (by norm_num))

theorem ending_eq (placement : LinePlacement ℝ) (run : Run ℝ) :
    placement.ending run = .result (placement.perform run) := by
  rw [ending, perform]
  cases run.request.shape with
  | point | area => rfl
  | line points =>
    dsimp only
    split
    · rfl
    · rename_i hlong
      have hlength : 0 < Polyline.length points := tolerance_pos.trans (not_le.mp hlong)
      obtain ⟨hstart, hfinish⟩ := placement.searchRange_mem
        run.workspace.options.lineSearchStep (Polyline.length points) run.extent.1
      rw [SearchRange.ending_eq (placement.searchRange_step_pos _ _ hlength) hstart hfinish]
      rfl

end LinePlacement

/-! ### Searches on rings -/

namespace Run

/-- Two numbers of rings of which both are enough find the same. -/
theorem onRings?_eq {α : Type} [Trigonometric α] {run : Run α} {anchor : Point α}
    {width height step maxRadius radius : α} {rings other : Nat}
    (hrings : run.EndsOnRings anchor width height step maxRadius radius rings)
    (hother : run.EndsOnRings anchor width height step maxRadius radius other) :
    run.onRings? anchor width height step maxRadius rings radius =
      run.onRings? anchor width height step maxRadius other radius := by
  induction rings generalizing radius other with
  | zero => exact hrings.elim
  | succ rings ih =>
    cases other with
    | zero => exact hother.elim
    | succ other =>
      rw [onRings?, onRings?]
      split
      · rename_i hwithin
        split
        · rfl
        · rename_i hnone
          exact ih (hrings hwithin hnone) (hother hwithin hnone)
      · rfl

variable {run : Run ℝ}

theorem endsOnRings_of_lt {anchor : Point ℝ} {width height step maxRadius radius : ℝ} {rings : Nat}
    (hreach : maxRadius < radius + rings * step) :
    run.EndsOnRings anchor width height step maxRadius radius (rings + 1) := by
  induction rings generalizing radius with
  | zero =>
    intro hwithin _
    rw [Nat.cast_zero, zero_mul, add_zero] at hreach
    exact absurd hwithin (not_le.mpr hreach)
  | succ rings ih =>
    intro _ _
    refine ih ?_
    push_cast at hreach
    linarith

end Run

/-! ### Boxes -/

theorem Candidate.isOrdered_create (center : Point ℝ) (width height angle : ℝ) :
    (create center width height angle).bounds.IsOrdered := by
  have hholds : (create center width height angle).bounds.Holds
      (create center width height angle).corners.lowerLeft :=
    Box.holds_ofPoints List.mem_cons_self
  exact ⟨hholds.left.trans hholds.right, hholds.below.trans hholds.above⟩

/-- The candidate that the run has noted, if any, has a box with its bounds in order. -/
def Run.NotesOrdered (run : Run ℝ) : Prop :=
  ∀ candidate, run.ideal = some candidate → candidate.bounds.IsOrdered

namespace Run

variable {run : Run ℝ}

theorem Fits.isOrdered {candidate : Candidate ℝ} (hfits : run.Fits candidate) :
    candidate.bounds.IsOrdered := by
  obtain ⟨center, angle, rfl⟩ := hfits
  exact Candidate.isOrdered_create _ _ _ _

/-- **A search on rings.** It gets beyond the greatest radius in as many rings as it is bounded
by. -/
theorem ofRounds_onRings? {anchor : Point ℝ} {width height step maxRadius : ℝ} (hstep : 0 < step) :
    Ending.ofRounds (run.EndsOnRings anchor width height step maxRadius step)
        (fun rings => run.onRings? anchor width height step maxRadius rings step) =
      .result (run.onRings? anchor width height step maxRadius
        (Scalar.wholePart (maxRadius / step) + 2) step) := by
  have hfloor := Nat.lt_floor_add_one (maxRadius / step)
  rw [div_lt_iff₀ hstep] at hfloor
  have hreach : maxRadius < step + ((⌊maxRadius / step⌋₊ + 1 : Nat) : ℝ) * step := by
    push_cast
    linarith
  exact Ending.ofRounds_eq_result (fun _ _ => onRings?_eq) (endsOnRings_of_lt hreach)

theorem leaderEnding_eq (run : Run ℝ) (maxLength : Option ℝ) :
    run.leaderEnding maxLength = .result (run.findLeader? maxLength) := by
  rw [leaderEnding, findLeader?]
  cases run.request.shape.anchor? with
  | none => rfl
  | some anchor =>
    dsimp only
    split
    · rfl
    · rename_i hallowed
      rw [Scalar.numeral_eq, Nat.cast_zero, not_or, not_le] at hallowed
      rw [ofRounds_onRings? hallowed.1]
      generalize hfound : run.onRings? anchor _ _ _ _ _ _ = found
      cases found with
      | none => rfl
      | some place =>
        simp only [Ending.andThen, LeaderPlace.ending, if_pos (fits_of_onRings? hfound).isOrdered]
        rfl

theorem placeWithLeaderEnding_eq (run : Run ℝ) (maxLength : Option ℝ) (status : Status) :
    run.placeWithLeaderEnding maxLength status =
      .result (run.placeWithLeader maxLength status) := by
  rw [placeWithLeaderEnding, leaderEnding_eq, placeWithLeader]
  cases run.findLeader? maxLength <;> rfl

theorem NotesOrdered.isOrdered (hnotes : run.NotesOrdered) {candidate : Candidate ℝ}
    (hforced : run.forcedCandidate? = some candidate) : candidate.bounds.IsOrdered :=
  (fits_or_ideal_of_forcedCandidate? hforced).elim Fits.isOrdered (hnotes candidate)

end Run

/-! ### Commands -/

theorem FailureAction.ending_eq (action : FailureAction) {run : Run ℝ}
    (hnotes : run.NotesOrdered) : action.ending run = .result (action.perform run) := by
  cases action with
  | suppress | force => rfl
  | forceWithLeader =>
    rw [ending, Run.leaderEnding_eq, perform, Run.forcedLeader?, Run.forcedPlaceEnding]
    cases run.findLeader? none with
    | some place => rfl
    | none =>
      cases hforced : run.forcedCandidate? with
      | none => rfl
      | some candidate =>
        cases run.request.shape.anchor? with
        | none => rfl
        | some anchor =>
          simp only [Ending.andThen, LeaderPlace.ending, if_pos (hnotes.isOrdered hforced)]
          rfl

/-- **One command.** -/
theorem Command.ending_eq (command : Command ℝ) {run : Run ℝ} (hnotes : run.NotesOrdered) :
    command.ending run = .result (Sequence.performSingle command run) := by
  cases command with
  | line placement => rw [ending, placement.ending_eq]; rfl
  | leader placement =>
    rw [ending, LeaderPlacement.ending, Sequence.performSingle, LeaderPlacement.perform]
    cases placement.timing with
    | immediate => rw [Run.placeWithLeaderEnding_eq]; rfl
    | deferred => rfl
  | failure action => rw [ending, action.ending_eq hnotes]; rfl
  | point | area | loop => rfl

/-! ### Sequences -/

namespace Sequence

theorem keeps_notesOrdered (sequence : Sequence ℝ) :
    sequence.Keeps (fun command run => .result (performSingle command run)) Run.NotesOrdered
      (fun _ => True) (fun _ : Performing ℝ => False) (fun _ => False) where
  visit _ _ hnotes := hnotes
  reenter kind state _ hnotes candidate hideal :=
    hnotes candidate ((kind.ideal_reenter state _).symm.trans hideal)
  finish kind state _ hnotes candidate hideal :=
    hnotes candidate ((kind.ideal_finish state _).symm.trans hideal)
  restore kind _ hnotes candidate hideal :=
    hnotes candidate ((kind.ideal_restoreDeclared _).symm.trans hideal)
  finished _ _ _ _ _ := trivial
  single := by
    intro position entry _ hsingle run hnotes
    have hsized := sized_performSingle hsingle (run.visit position entry.id)
    generalize performSingle entry.command (run.visit position entry.id) = outcome at hsized
    have hafter : outcome.2.NotesOrdered := fun candidate hideal =>
      (hsized.noted candidate hideal).elim (hnotes candidate) Run.Fits.isOrdered
    obtain ⟨error | settled, after⟩ := outcome
    · trivial
    · cases settled with
      | true => trivial
      | false => exact hafter
  unresolved _ _ _ _ _ _ := trivial

/-- **Sequences come back.** With exact numbers the outcome of a sequence is the one that it has
with all searches bounded. -/
theorem ending_start (sequence : Sequence ℝ) (workspace : Workspace ℝ) (request : Request ℝ) :
    sequence.ending (.start workspace request) =
      .result (sequence.execute (.start workspace request)) :=
  sequence.keeps_notesOrdered.ending_eq (fun _ _ _ hnotes => Command.ending_eq _ hnotes) nofun

end Sequence

/-! ### Maps -/

namespace LabelMap

variable (map : LabelMap ℝ)

theorem placeAtEnding_eq (position : Nat) :
    map.placeAtEnding position = .result (map.placeAt position) := by
  rw [placeAtEnding, placeAt]
  cases map.requests[position]? with
  | none => rfl
  | some request =>
    have hrequest : map.placeRequestEnding request = .result (map.placeRequest request) := by
      rw [placeRequestEnding, placeRequest]
      cases map.class? request.labelClass with
      | none => rfl
      | some sequence =>
        dsimp only
        rw [sequence.ending_start]
        generalize sequence.execute _ = outcome
        obtain ⟨error | settled, run⟩ := outcome <;> rfl
    dsimp only
    rw [hrequest]
    rfl

theorem placeAllEnding_eq (conditions : Conditions) (turn : Nat) (positions : List Nat) :
    map.placeAllEnding conditions turn positions =
      .result (map.placeAll conditions turn positions) := by
  induction positions generalizing map turn with
  | nil => rfl
  | cons position rest ih =>
    rw [placeAllEnding, placeAll]
    cases conditions.stop? map.options turn with
    | some stop => rfl
    | none =>
      dsimp only
      rw [placeAtEnding_eq, Ending.andThen, ih]
      rfl

theorem placeDeferredEnding_eq (deferred : DeferredLeader ℝ) :
    map.placeDeferredEnding deferred = .result (map.placeDeferred deferred) := by
  rw [placeDeferredEnding, placeDeferred]
  cases map.request? deferred.request with
  | none => rfl
  | some request =>
    dsimp only
    rw [Run.placeWithLeaderEnding_eq]
    generalize (Run.start map.workspace request).placeWithLeader _ _ = outcome
    obtain ⟨found, run⟩ := outcome
    cases found <;> rfl

theorem placeEachDeferred_eq (leaders : List (DeferredLeader ℝ)) :
    map.placeEachDeferred leaders = .result (leaders.foldl placeDeferred map) := by
  induction leaders generalizing map with
  | nil => rfl
  | cons leader rest ih =>
    rw [placeEachDeferred, placeDeferredEnding_eq, Ending.andThen, ih]
    rfl

/-- **Labelling comes back.** -/
theorem labelEnding_eq (conditions : Conditions) :
    map.labelEnding conditions = .result (map.labelUnder conditions) := by
  simp only [labelEnding, placeAllEnding_eq, placeEachDeferred_eq, Ending.andThen, labelUnder]
  split <;> rfl

end LabelMap

end LabelPlacement
