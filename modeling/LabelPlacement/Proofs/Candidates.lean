import LabelPlacement.Proofs.Settlement

/-!
# Candidates of single commands

Every command that tries candidates makes them of the size that the label has at the moment
(`Run.Fits`), and what it does to them afterwards keeps that size. `Run.Sized` says what follows for
the candidate that a run notes and for the one that it places. Whether a command tries candidates at
all does not depend on the size of the label, for points and areas (`Command.Notes.ideal_ne_none`).
-/

namespace LabelPlacement

variable {α : Type} [Trigonometric α]

/-! ### Candidates of the size of the label -/

/-- The candidate has the size that the label has at the moment. -/
def Run.Fits (run : Run α) (candidate : Candidate α) : Prop :=
  ∃ center angle, candidate = .create center run.extent.1 run.extent.2 angle

namespace Run

variable {run : Run α}

theorem fits_create (run : Run α) (center : Point α) (angle : α) :
    run.Fits (.create center run.extent.1 run.extent.2 angle) :=
  ⟨center, angle, rfl⟩

theorem Fits.translated {candidate : Candidate α} (hfits : run.Fits candidate)
    (displacement : Displacement α) : run.Fits (candidate.translated displacement) := by
  obtain ⟨center, angle, rfl⟩ := hfits
  exact ⟨center.translate displacement, angle, rfl⟩

theorem Fits.of_resolve? {candidate resolved : Candidate α} (hfits : run.Fits candidate)
    (hresolved : run.resolve? candidate = some resolved) : run.Fits resolved := by
  rw [resolve?] at hresolved
  split at hresolved
  · rwa [← Option.some.inj hresolved]
  · split at hresolved
    · split at hresolved
      · cases hresolved
      · simp only [Option.ite_none_right_eq_some, Option.some.injEq] at hresolved
        exact hresolved.2 ▸ hfits.translated _
    · cases hresolved
  · cases hresolved

theorem Fits.of_settle? {suits : Candidate α → Bool} {candidate resolved : Candidate α}
    (hfits : run.Fits candidate) (hsettled : run.settle? suits candidate = some resolved) :
    run.Fits resolved := by
  rw [settle?] at hsettled
  split at hsettled
  · exact hfits.of_resolve? (Option.filter_eq_some_iff.mp hsettled).1
  · cases hsettled

theorem fits_of_onRing? {anchor : Point α} {radius : α} {place : LeaderPlace α}
    (hplace : run.onRing? anchor run.extent.1 run.extent.2 radius = some place) :
    run.Fits place.candidate := by
  obtain ⟨position, _, hposition⟩ := List.exists_of_findSome?_eq_some hplace
  split at hposition
  · cases hposition
  · rename_i candidate hcandidate
    obtain ⟨direction, _, rfl⟩ := Option.map_eq_some_iff.mp hcandidate
    obtain ⟨resolved, hresolved, rfl⟩ := Option.map_eq_some_iff.mp hposition
    exact (run.fits_create _ _).of_resolve? hresolved

theorem fits_of_onRings? {anchor : Point α} {step maxRadius : α} {rings : Nat} {radius : α}
    {place : LeaderPlace α}
    (hplace : run.onRings? anchor run.extent.1 run.extent.2 step maxRadius rings radius =
      some place) : run.Fits place.candidate := by
  induction rings generalizing radius with
  | zero => cases hplace
  | succ rings ih =>
    rw [onRings?] at hplace
    split at hplace
    · split at hplace
      · rename_i hring
        exact fits_of_onRing? (hring.trans hplace)
      · exact ih hplace
    · cases hplace

theorem fits_of_findLeader? {maxLength : Option α} {place : LeaderPlace α}
    (hplace : run.findLeader? maxLength = some place) : run.Fits place.candidate := by
  rw [findLeader?] at hplace
  split at hplace
  · cases hplace
  · simp only [Option.ite_none_left_eq_some] at hplace
    exact fits_of_onRings? hplace.2

end Run

theorem fits_compassCandidate (run : Run α) (point : Point α) (hull : List (Point α))
    (position : Compass) (offset angle : α) :
    run.Fits (compassCandidate point hull position run.extent.1 run.extent.2 offset angle) := by
  rw [compassCandidate]
  split
  · exact run.fits_create _ _
  · exact run.fits_create _ _

theorem LinePlacement.fits_of_mem_candidates {placement : LinePlacement α} {run : Run α}
    {points : List (Point α)} {candidate : Candidate α}
    (hmem : candidate ∈ placement.candidates run points) : run.Fits candidate := by
  obtain ⟨factor, _, hfactor⟩ := List.mem_flatMap.mp hmem
  obtain ⟨station, _, rfl⟩ := List.mem_map.mp hfactor
  rw [lineCandidate.eq_def]
  cases placement.side with
  | above | below | middle | left | right => exact run.fits_create _ _

theorem PointPlacement.fits_of_mem_candidates {placement : PointPlacement α} {run : Run α}
    {point : Point α} {hull : List (Point α)} {candidate : Candidate α}
    (hmem : candidate ∈ placement.candidates run point hull) : run.Fits candidate := by
  obtain ⟨factor, _, hfactor⟩ := List.mem_flatMap.mp hmem
  obtain ⟨position, _, rfl⟩ := List.mem_map.mp hfactor
  exact fits_compassCandidate run _ _ _ _ _

theorem AreaPlacement.fits_of_mem_candidates {placement : AreaPlacement α} {run : Run α}
    {polygon : Polygon α} {candidate : Candidate α}
    (hmem : candidate ∈ placement.candidates run polygon) : run.Fits candidate := by
  simp only [candidates] at hmem
  split at hmem
  · rw [interiorCandidates] at hmem
    split at hmem
    · cases hmem
    · obtain ⟨center, _, rfl⟩ := List.mem_map.mp hmem
      exact run.fits_create _ _
  · split at hmem
    · obtain ⟨factor, _, hfactor⟩ := List.mem_flatMap.mp hmem
      obtain ⟨position, _, rfl⟩ := List.mem_map.mp hfactor
      exact fits_compassCandidate run _ _ _ _ _
    · obtain ⟨edge, _, rfl⟩ := List.mem_map.mp hmem
      exact run.fits_create _ _

/-! ### What a command places and notes -/

/-- A candidate that was noted before stays noted; one that is noted now has the size of the moment.
So has what is placed, unless it was noted before and is placed in spite of what is in its way. -/
structure Run.Sized (run : Run α) (outcome : Outcome α) : Prop where
  kept : ∀ candidate, run.ideal = some candidate → outcome.2.ideal = some candidate
  noted : ∀ candidate, outcome.2.ideal = some candidate →
    run.ideal = some candidate ∨ run.Fits candidate
  placed : outcome.1 = .ok true → outcome.2.request.status.isPlaced = true →
    ∃ candidate leader ideal,
      outcome.2 = { run with ideal }.place candidate outcome.2.request.status leader ∧
      (run.Fits candidate ∨
        outcome.2.request.status.isFree = false ∧ run.ideal = some candidate)

namespace Run

theorem sized_unplaced (run : Run α) {result : Except (LabelingError α) Bool}
    (hresult : result ≠ .ok true) : run.Sized (result, run) :=
  ⟨fun _ hideal => hideal, fun _ hideal => Or.inl hideal, fun hplaced => absurd hplaced hresult⟩

theorem sized_of_not_isPlaced {run after : Run α} (hideal : after.ideal = run.ideal)
    (hstatus : after.request.status.isPlaced = false) : run.Sized (.ok true, after) where
  kept _ hkept := hideal.trans hkept
  noted _ hnoted := Or.inl (hideal.symm.trans hnoted)
  placed _ hplaced := by
    rw [show after.request.status.isPlaced = true from hplaced] at hstatus
    cases hstatus

theorem sized_place {run : Run α} {candidate : Candidate α} {status : Status}
    (leader : Option (LeaderLine α))
    (hfits : run.Fits candidate ∨ status.isFree = false ∧ run.ideal = some candidate) :
    run.Sized (.ok true, run.place candidate status leader) where
  kept _ hideal := hideal
  noted _ hideal := Or.inl hideal
  placed _ _ := ⟨candidate, leader, run.ideal, rfl, hfits⟩

/-- The first candidate is noted unless one was noted before. -/
theorem ideal_placeFirst (run : Run α) (suits : Candidate α → Bool)
    (candidates : List (Candidate α)) :
    (run.placeFirst suits candidates).2.ideal =
      candidates.head?.elim run.ideal fun first => some (run.ideal.getD first) := by
  rw [placeFirst]
  cases candidates with
  | nil => rfl
  | cons first rest => split <;> rfl

theorem sized_placeFirst {run : Run α} {candidates : List (Candidate α)}
    (hfits : ∀ candidate ∈ candidates, run.Fits candidate) (suits : Candidate α → Bool) :
    run.Sized ((run.placeFirst suits candidates).map .ok id) where
  kept candidate hideal := by
    refine (run.ideal_placeFirst suits candidates).trans ?_
    cases candidates with
    | nil => exact hideal
    | cons first rest => simp [hideal]
  noted candidate hideal := by
    have hnoted : (run.placeFirst suits candidates).2.ideal = some candidate := hideal
    rw [ideal_placeFirst] at hnoted
    cases candidates with
    | nil => exact Or.inl hnoted
    | cons first rest =>
      cases hprevious : run.ideal with
      | some previous => rw [← hnoted, hprevious]; exact Or.inl rfl
      | none =>
        simp only [hprevious, List.head?_cons, Option.elim_some, Option.getD_none,
          Option.some.injEq] at hnoted
        exact Or.inr (hnoted ▸ hfits first List.mem_cons_self)
  placed hsettled _ := by
    obtain ⟨ideal, ⟨candidate, hmem, resolved, hresolved, hplaced⟩ | hunplaced⟩ :=
      run.placeFirst_cases suits candidates
    · rw [hplaced]
      exact ⟨resolved, none, ideal, rfl, Or.inl ((hfits candidate hmem).of_settle? hresolved)⟩
    · rw [hunplaced] at hsettled
      cases hsettled

theorem sized_placeWithLeader (run : Run α) (maxLength : Option α) :
    run.Sized ((run.placeWithLeader maxLength .placedWithLeader).map .ok id) := by
  rw [placeWithLeader]
  split
  · rename_i place hplace
    exact sized_place _ (Or.inl (fits_of_findLeader? hplace))
  · exact run.sized_unplaced (by simp)

theorem fits_or_ideal_of_forcedCandidate? {run : Run α} {candidate : Candidate α}
    (hforced : run.forcedCandidate? = some candidate) :
    run.Fits candidate ∨ run.ideal = some candidate := by
  rw [forcedCandidate?] at hforced
  split at hforced
  · rename_i hideal
    exact Or.inr (hideal.trans hforced)
  · obtain ⟨anchor, _, rfl⟩ := Option.map_eq_some_iff.mp hforced
    exact Or.inl (run.fits_create anchor 0)

theorem fits_or_ideal_of_forcedLeader? {run : Run α} {place : LeaderPlace α}
    (hforced : run.forcedLeader? = some place) :
    run.Fits place.candidate ∨ run.ideal = some place.candidate := by
  rw [forcedLeader?] at hforced
  split at hforced
  · rename_i hplace
    exact Or.inl (fits_of_findLeader? (hplace.trans hforced))
  · split at hforced
    · rename_i hcandidate _
      rw [← Option.some.inj hforced]
      exact fits_or_ideal_of_forcedCandidate? hcandidate
    · cases hforced

end Run

theorem FailureAction.sized_perform (action : FailureAction) (run : Run α) :
    run.Sized (.ok true, action.perform run) := by
  cases action with
  | suppress => exact Run.sized_of_not_isPlaced rfl rfl
  | force =>
    rw [perform]
    split
    · rename_i candidate hforced
      have hfits := Run.fits_or_ideal_of_forcedCandidate? hforced
      exact Run.sized_place _ (hfits.imp_right fun hideal => ⟨rfl, hideal⟩)
    · exact Run.sized_of_not_isPlaced rfl rfl
  | forceWithLeader =>
    rw [perform]
    split
    · rename_i place hforced
      have hfits := Run.fits_or_ideal_of_forcedLeader? hforced
      exact Run.sized_place _ (hfits.imp_right fun hideal => ⟨rfl, hideal⟩)
    · exact Run.sized_of_not_isPlaced rfl rfl

/-- **One command.** -/
theorem Sequence.sized_performSingle {command : Command α} (hcommand : command.loop? = none)
    (run : Run α) : run.Sized (performSingle command run) := by
  cases command with
  | line placement =>
    rw [performSingle, LinePlacement.perform]
    split
    · split
      · exact run.sized_unplaced (by simp)
      · exact Run.sized_placeFirst (fun _ => LinePlacement.fits_of_mem_candidates) _
    · exact run.sized_unplaced (by simp)
  | point placement =>
    rw [performSingle, PointPlacement.perform]
    split
    · split
      · exact run.sized_unplaced (by simp)
      · exact Run.sized_placeFirst (fun _ => PointPlacement.fits_of_mem_candidates) _
    · exact run.sized_unplaced (by simp)
  | area placement =>
    rw [performSingle, AreaPlacement.perform]
    split
    · split
      · exact run.sized_unplaced (by simp)
      · exact Run.sized_placeFirst (fun _ => AreaPlacement.fits_of_mem_candidates) _
    · exact run.sized_unplaced (by simp)
  | leader placement =>
    rw [performSingle, LeaderPlacement.perform]
    split
    · exact run.sized_placeWithLeader placement.maxLength
    · exact Run.sized_of_not_isPlaced rfl rfl
  | failure action => exact action.sized_perform run
  | loop loop => cases hcommand

/-- Only a command that settles a label anyway forces it. -/
theorem Sequence.isFree_of_performed {command : Command α} (hsingle : command.loop? = none)
    (hfailure : ∀ action, command ≠ .failure action) {run after : Run α}
    (hperformed : performSingle command run = (.ok true, after))
    (hplaced : after.request.status.isPlaced = true) : after.request.status.isFree = true := by
  have hfirst {suits : Candidate α → Bool} {candidates : List (Candidate α)}
      (hsettled : (run.placeFirst suits candidates).map .ok id =
        ((.ok true, after) : Outcome α)) : after.request.status = .placed := by
    obtain ⟨ideal, ⟨-, -, resolved, -, hfound⟩ | hnone⟩ := run.placeFirst_cases suits candidates
    · rw [hfound] at hsettled
      rw [← show _ = after from congrArg Prod.snd hsettled]
      rfl
    · rw [hnone] at hsettled
      cases hsettled
  cases command with
  | line placement =>
    rw [performSingle, LinePlacement.perform] at hperformed
    split at hperformed
    · split at hperformed
      · cases hperformed
      · rw [hfirst hperformed]
        rfl
    · cases hperformed
  | point placement =>
    rw [performSingle, PointPlacement.perform] at hperformed
    split at hperformed
    · split at hperformed
      · cases hperformed
      · rw [hfirst hperformed]
        rfl
    · cases hperformed
  | area placement =>
    rw [performSingle, AreaPlacement.perform] at hperformed
    split at hperformed
    · split at hperformed
      · cases hperformed
      · rw [hfirst hperformed]
        rfl
    · cases hperformed
  | leader placement =>
    rw [performSingle, LeaderPlacement.perform] at hperformed
    split at hperformed
    · rw [Run.placeWithLeader] at hperformed
      split at hperformed
      · rw [← show _ = after from congrArg Prod.snd hperformed]
        rfl
      · cases hperformed
    · rw [← show _ = after from congrArg Prod.snd hperformed] at hplaced
      cases hplaced
  | failure action => exact absurd rfl (hfailure action)
  | loop loop => cases hsingle

/-! ### Which commands try candidates -/

namespace Run

variable {run : Run α} {suits : Candidate α → Bool} {candidates : List (Candidate α)}

theorem candidates_ne_nil_of_noted (hideal : run.ideal = none)
    (hnoted : (run.placeFirst suits candidates).2.ideal ≠ none) : candidates ≠ [] := by
  rintro rfl
  rw [ideal_placeFirst] at hnoted
  exact hnoted hideal

theorem noted_of_candidates_ne_nil (hcandidates : candidates ≠ []) :
    (run.placeFirst suits candidates).2.ideal ≠ none := by
  rw [ideal_placeFirst]
  cases candidates with
  | nil => exact absurd rfl hcandidates
  | cons first rest => simp

end Run

theorem Relaxations.offsetFactors_ne_nil (relaxations : Relaxations α) :
    relaxations.offsetFactors ≠ [] := by
  rw [offsetFactors]
  split <;> simp

theorem PointPlacement.candidates_eq_nil_iff {placement : PointPlacement α} {run : Run α}
    {point : Point α} {hull : List (Point α)} :
    placement.candidates run point hull = [] ↔ placement.positions = [] := by
  obtain ⟨factor, hfactor⟩ := List.exists_mem_of_ne_nil _ run.relaxations.offsetFactors_ne_nil
  simp only [candidates, List.flatMap_eq_nil_iff, List.map_eq_nil_iff]
  exact ⟨fun hnone => hnone factor hfactor, fun hnone _ _ => hnone⟩

/-- The strategy finds no candidates for the area. -/
def AreaPlacement.FindsNone (placement : AreaPlacement α) (polygon : Polygon α) : Prop :=
  if placement.strategy.isInterior then polygon.centroid? = none
  else placement.strategy.isExterior = false ∧ polygon.edges = []

theorem AreaPlacement.candidates_eq_nil_iff {placement : AreaPlacement α} {run : Run α}
    {polygon : Polygon α} :
    placement.candidates run polygon = [] ↔ placement.FindsNone polygon := by
  obtain ⟨factor, hfactor⟩ := List.exists_mem_of_ne_nil _ run.relaxations.offsetFactors_ne_nil
  simp only [candidates, FindsNone]
  split
  · rw [interiorCandidates]
    split <;> simp_all
  · split
    · rename_i hexterior
      simp only [hexterior, List.flatMap_eq_nil_iff, Bool.true_eq_false, false_and, iff_false]
      intro hnone
      exact List.cons_ne_nil _ _ (hnone factor hfactor)
    · rename_i hexterior
      rw [straddleCandidates, List.map_eq_nil_iff, ← List.length_eq_zero_iff,
        List.length_mergeSort, List.length_eq_zero_iff]
      simp [hexterior]

/-- The command notes a candidate for a label of a feature of the shape in some run at least. -/
def Command.Notes (command : Command α) (shape : Shape α) : Prop :=
  ∃ run : Run α, run.request.shape = shape ∧ run.ideal = none ∧
    (Sequence.performSingle command run).2.ideal ≠ none

theorem PointPlacement.noted_of_noted {placement : PointPlacement α} {run other after : Run α}
    (hideal : other.ideal = none) (hnoted : (placement.perform other).2.ideal ≠ none)
    (hshape : run.request.shape = other.request.shape)
    (hperformed : placement.perform run = (.ok false, after)) : after.ideal ≠ none := by
  rw [perform] at hnoted hperformed
  rw [hshape] at hperformed
  split at hnoted
  · rename_i point hpoint
    simp only [hpoint] at hperformed
    split at hnoted
    · exact absurd hideal hnoted
    · have hcandidates := Run.candidates_ne_nil_of_noted hideal hnoted
      rw [Ne, candidates_eq_nil_iff] at hcandidates
      split at hperformed
      · cases hperformed
      · rw [← (Prod.mk.inj hperformed).2]
        exact Run.noted_of_candidates_ne_nil (mt candidates_eq_nil_iff.mp hcandidates)
  · exact absurd hideal hnoted

theorem AreaPlacement.noted_of_noted {placement : AreaPlacement α} {run other : Run α}
    (hideal : other.ideal = none) (hnoted : (placement.perform other).2.ideal ≠ none)
    (hshape : run.request.shape = other.request.shape) :
    (placement.perform run).2.ideal ≠ none := by
  rw [perform] at hnoted ⊢
  rw [hshape]
  split at hnoted
  · split at hnoted
    · exact absurd hideal hnoted
    · rename_i hvertices
      have hcandidates := Run.candidates_ne_nil_of_noted hideal hnoted
      rw [Ne, candidates_eq_nil_iff] at hcandidates
      rw [if_neg hvertices]
      exact Run.noted_of_candidates_ne_nil (mt candidates_eq_nil_iff.mp hcandidates)
  · exact absurd hideal hnoted

/-- **Candidates at every size.** For points and areas, a command that ever notes a candidate
does so in each run that it does not end. -/
theorem Command.Notes.ideal_ne_none {command : Command α} {shape : Shape α}
    (hnotes : command.Notes shape) (hkind : shape.kind ≠ .line) {run after : Run α}
    (hshape : run.request.shape = shape)
    (hperformed : Sequence.performSingle command run = (.ok false, after)) :
    after.ideal ≠ none := by
  obtain ⟨other, rfl, hideal, hnoted⟩ := hnotes
  cases command with
  | line placement =>
    rw [Sequence.performSingle, LinePlacement.perform] at hnoted
    split at hnoted
    · rename_i points hpoints
      rw [hpoints] at hkind
      exact absurd rfl hkind
    · exact absurd hideal hnoted
  | point placement => exact PointPlacement.noted_of_noted hideal hnoted hshape hperformed
  | area placement =>
    rw [← show _ = after from congrArg Prod.snd hperformed]
    exact AreaPlacement.noted_of_noted hideal hnoted hshape
  | leader placement =>
    refine absurd ?_ hnoted
    rw [Sequence.performSingle, LeaderPlacement.perform]
    split
    · rw [Run.placeWithLeader]
      split <;> exact hideal
    · exact hideal
  | failure action =>
    refine absurd ?_ hnoted
    rw [Sequence.performSingle]
    cases action with
    | suppress => exact hideal
    | force | forceWithLeader =>
      rw [FailureAction.perform]
      split <;> exact hideal
  | loop loop => exact absurd hideal hnoted

theorem Command.Notes.loop?_eq_none {command : Command α} {shape : Shape α}
    (hnotes : command.Notes shape) : command.loop? = none := by
  obtain ⟨run, _, hideal, hnoted⟩ := hnotes
  cases command with
  | loop loop => exact absurd hideal hnoted
  | line | point | area | leader | failure => rfl

end LabelPlacement
