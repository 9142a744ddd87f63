import LabelPlacement.Proofs.Ranges
import LabelPlacement.Proofs.Rules

/-!
# Conflicts

What is in the way of a label is searched for with one box, grown by the larger of the two
clearances, and then told apart by the clearance that applies. Nothing is missed that way, whatever
the buffers are: a clearance is never negative, so the search box holds the box of either clearance,
and what overlaps a box overlaps every larger one, be it as flat as the box of a point or of a level
line. So the conflicts are those that testing every box on the map finds (`Run.Obstructs`), and a
run that asks for no more than another one (`Run.AsksNoMore`) finds no others.
-/

namespace LabelPlacement

variable {α : Type}

/-! ### Clearances -/

section
variable [Scalar α] [LawfulScalar α]

open LawfulScalar

theorem Scalar.larger_zero_le {small large : α} (hle : small ≤ large) :
    Scalar.larger small 0 ≤ Scalar.larger large 0 := by
  have hzero : (0 : α) ≤ Scalar.larger large 0 := right_le_larger zero_le_zero
  rw [larger]
  split
  · exact hzero
  · split
    · exact le_trans hle (left_le_larger (right_of_le hle))
    · exact hzero

end

namespace Run

section
variable [Scalar α] {run other : Run α}

/-! ### Testing every box -/

/-- What is in the way of a label in given bounds: the label of another request within the buffer
for labels, and a part of another feature within the buffer for features, unless it is a line or an
edge that may be crossed. A negative buffer counts as none. -/
inductive Obstructs (run : Run α) (bounds : Box α) : Occupied α → Prop
  | label {request : Nat} {box : Box α} (hother : request ≠ run.request.id)
      (hnear : (bounds.expanded (Scalar.larger run.request.working.buffers.label 0)).intersects
        box = true) :
      Obstructs run bounds ⟨.label request, box⟩
  | feature {feature : Nat} {kind : ObstacleKind} {box : Box α}
      (hother : feature ≠ run.request.feature)
      (hbarred : run.relaxations.overline = true → kind = .point)
      (hnear : (bounds.expanded (Scalar.larger run.request.working.buffers.feature 0)).intersects
        box = true) :
      Obstructs run bounds ⟨.feature feature kind, box⟩

theorem isInTheWay_iff {bounds : Box α} {entry : Occupied α} :
    run.isInTheWay bounds entry = true ↔ run.Obstructs bounds entry := by
  obtain ⟨owner, box⟩ := entry
  cases owner with
  | label request =>
    simp only [isInTheWay, Bool.and_eq_true, bne_iff_ne]
    constructor
    · rintro ⟨hother, hnear⟩
      exact .label hother hnear
    · intro hobstructs
      cases hobstructs with
      | label hother hnear => exact ⟨hother, hnear⟩
  | feature feature kind =>
    have hlines : (!(run.relaxations.overline && (kind == .lineSegment || kind == .areaEdge))) =
        true ↔ (run.relaxations.overline = true → kind = .point) := by
      cases run.relaxations.overline <;> cases kind <;> decide
    simp only [isInTheWay, Bool.and_eq_true, bne_iff_ne, hlines, and_assoc]
    constructor
    · rintro ⟨hother, hbarred, hnear⟩
      exact .feature hother hbarred hnear
    · intro hobstructs
      cases hobstructs with
      | feature hother hbarred hnear => exact ⟨hother, hbarred, hnear⟩

instance (run : Run α) (bounds : Box α) : DecidablePred (run.Obstructs bounds) :=
  fun _ => decidable_of_iff _ isInTheWay_iff

variable [LawfulScalar α]

/-- What is in the way overlaps the box that the search looks at. -/
theorem intersects_of_isInTheWay {bounds : Box α} {entry : Occupied α}
    (hway : run.isInTheWay bounds entry = true) :
    (bounds.expanded (Scalar.larger (run.clearance .label) (run.clearance .feature))).intersects
      entry.bounds = true := by
  have hnear : ∃ kind, (bounds.expanded (run.clearance kind)).intersects entry.bounds = true := by
    rw [isInTheWay] at hway
    split at hway
    · exact ⟨.label, (Bool.and_eq_true_iff.mp hway).2⟩
    · exact ⟨.feature, (Bool.and_eq_true_iff.mp hway).2⟩
  obtain ⟨kind, hnear⟩ := hnear
  exact Box.intersects_expanded_of_le (run.clearance_nonneg kind) (run.clearance_le_reach kind)
    hnear

/-- **Nothing is missed.** -/
theorem conflicts_eq_filter (run : Run α) (bounds : Box α) :
    run.conflicts bounds = run.workspace.index.entries.filter (run.Obstructs bounds ·) := by
  rw [conflicts, SpatialIndex.query, List.filter_filter]
  refine List.filter_congr fun entry _ => ?_
  rw [Bool.eq_iff_iff, Bool.and_eq_true, decide_eq_true_iff, ← isInTheWay_iff]
  exact ⟨fun hboth => hboth.1, fun hway => ⟨hway, intersects_of_isInTheWay hway⟩⟩

/-! ### Asking for less -/

/-- A run on the same map and for the same label as another one asks for no more: its clearances are
no larger, and it may cross lines if the other one may. -/
structure AsksNoMore (run other : Run α) : Prop where
  index : run.workspace.index = other.workspace.index
  id : run.request.id = other.request.id
  feature : run.request.feature = other.request.feature
  clearance : ∀ kind, run.clearance kind ≤ other.clearance kind
  overline : other.relaxations.overline = true → run.relaxations.overline = true

theorem asksNoMore_setBuffer {kind : BufferKind} {value : α}
    (hle : value ≤ run.request.buffer kind) :
    (run.mapRequest (·.setBuffer kind value)).AsksNoMore run where
  index := rfl
  id := rfl
  feature := rfl
  clearance other := by
    by_cases hsame : other = kind
    · subst hsame
      have hbuffer : (run.request.setBuffer other value).buffer other = value :=
        run.request.working.buffers.get_set_self other value
      rw [Run.clearance, Run.clearance, mapRequest, hbuffer]
      exact Scalar.larger_zero_le hle
    · have hbuffer : (run.request.setBuffer kind value).buffer other = run.request.buffer other :=
        run.request.working.buffers.get_set_of_ne hsame value
      rw [Run.clearance, Run.clearance, mapRequest, hbuffer]
      exact LawfulScalar.right_of_le (run.clearance_nonneg other)
  overline := id

theorem asksNoMore_overline (run : Run α) :
    AsksNoMore { run with relaxations := { run.relaxations with overline := true } } run where
  index := rfl
  id := rfl
  feature := rfl
  clearance kind := LawfulScalar.right_of_le (run.clearance_nonneg kind)
  overline _ := rfl

theorem AsksNoMore.obstructs (hless : run.AsksNoMore other) {bounds : Box α} {entry : Occupied α}
    (hobstructs : run.Obstructs bounds entry) : other.Obstructs bounds entry := by
  cases hobstructs with
  | label hother hnear =>
    refine .label (hless.id ▸ hother) ?_
    exact Box.intersects_expanded_of_le (run.clearance_nonneg .label) (hless.clearance .label) hnear
  | feature hother hbarred hnear =>
    refine .feature (hless.feature ▸ hother) (fun hover => hbarred (hless.overline hover)) ?_
    exact Box.intersects_expanded_of_le (run.clearance_nonneg .feature) (hless.clearance .feature)
      hnear

theorem AsksNoMore.conflicts_sublist (hless : run.AsksNoMore other) (bounds : Box α) :
    (run.conflicts bounds).Sublist (other.conflicts bounds) := by
  rw [conflicts_eq_filter, conflicts_eq_filter, hless.index]
  refine List.monotone_filter_right _ fun entry hobstructs => ?_
  rw [decide_eq_true_iff] at hobstructs ⊢
  exact hless.obstructs hobstructs

end

variable [Trigonometric α]

variable [LawfulScalar α]

/-- **Conflicts.** What is in the way of a label are the boxes that testing all those on the map
finds, in their order. A run that asks for no more than another one, as it does after a buffer has
been lowered or lines may be crossed, finds no other conflicts; and a candidate that the other one
accepts where it is, without bumping it aside, it accepts as well. -/
theorem conflicts_are_obstructions (run : Run α) :
    (∀ bounds, run.conflicts bounds =
      run.workspace.index.entries.filter (run.Obstructs bounds ·)) ∧
    (∀ kind value, value ≤ run.request.buffer kind →
      (run.mapRequest (·.setBuffer kind value)).AsksNoMore run) ∧
    AsksNoMore { run with relaxations := { run.relaxations with overline := true } } run ∧
    ∀ less : Run α, less.AsksNoMore run →
      (∀ bounds, (less.conflicts bounds).Sublist (run.conflicts bounds)) ∧
      ∀ candidate resolved, run.resolve? candidate = some resolved →
        run.relaxations.bump = false ∨ run.conflicts candidate.bounds = [] →
        resolved = candidate ∧ less.resolve? candidate = some candidate := by
  refine ⟨run.conflicts_eq_filter, fun _ _ => asksNoMore_setBuffer, run.asksNoMore_overline,
    fun less hless => ⟨hless.conflicts_sublist, fun candidate resolved hresolved hkept => ?_⟩⟩
  have hfree : run.conflicts candidate.bounds = [] :=
    hkept.elim (fun hbump => ((resolve?_eq_some_iff hbump).mp hresolved).2) id
  have hnone : less.conflicts candidate.bounds = [] := by
    have hsublist := hless.conflicts_sublist candidate.bounds
    rwa [hfree, List.sublist_nil] at hsublist
  rw [resolve?_of_conflicts_eq_nil hfree] at hresolved
  exact ⟨(Option.some.inj hresolved).symm, resolve?_of_conflicts_eq_nil hnone⟩

/-- A label that only touches the bounds of another one is not in its way, whose buffer for labels
is negative. A border and a spring within the buffer for features are; the border may be crossed,
and with a smaller buffer both are out of the way. -/
theorem border_and_spring_obstruct_town :
    let town : Request Rat := .create 1 1 "town" (.point ⟨0, 0⟩) (.single "Ab") ⟨10, ⟨-3, 4⟩⟩
    let border : Occupied Rat := ⟨.feature 3 .lineSegment, ⟨⟨-20, 8⟩, ⟨20, 8⟩⟩⟩
    let neighbour : Occupied Rat := ⟨.label 2, ⟨⟨6, -6⟩, ⟨9, 6⟩⟩⟩
    let spring : Occupied Rat := ⟨.feature 4 .point, ⟨⟨8, 0⟩, ⟨8, 0⟩⟩⟩
    let run : Run Rat :=
      .start { Workspace.empty .standard with index := ⟨[border, neighbour, spring]⟩ } town
    let crossing : Run Rat := { run with relaxations := { run.relaxations with overline := true } }
    let modest : Run Rat := run.mapRequest (·.setBuffer .feature 1)
    let candidate := Candidate.create ⟨0, 0⟩ 12 12 0
    run.conflicts candidate.bounds = [border, spring] ∧
      crossing.conflicts candidate.bounds = [spring] ∧
      (crossing.conflicts candidate.bounds).Sublist [border, spring] ∧
      (modest.conflicts candidate.bounds).Sublist [border, spring] ∧
      (modest.mapRequest (·.setBuffer .label (-5))).resolve? candidate = some candidate := by
  intro town border neighbour spring run crossing modest candidate
  obtain ⟨hconflicts, hlower, hcross, hless⟩ := conflicts_are_obstructions run
  have hobstructed : run.conflicts candidate.bounds = [border, spring] := by
    rw [hconflicts]
    decide +kernel
  refine ⟨hobstructed, by decide +kernel, ?_, ?_, ?_⟩
  · rw [← hobstructed]
    exact (hless crossing hcross).1 candidate.bounds
  · rw [← hobstructed]
    exact (hless modest (hlower .feature 1 (by decide +kernel))).1 candidate.bounds
  · obtain ⟨-, hlower, -, hless⟩ := conflicts_are_obstructions modest
    refine ((hless _ (hlower .label (-5) (by decide +kernel))).2 candidate candidate ?_ ?_).2
    · exact resolve?_of_conflicts_eq_nil (by decide +kernel)
    · exact Or.inl rfl

end Run

end LabelPlacement
