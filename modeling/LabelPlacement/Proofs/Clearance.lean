import LabelPlacement.Proofs.Exact
import LabelPlacement.Proofs.Records

/-!
# Placed labels keep their distance

A label that is placed where nothing is in its way keeps its clearances: to all labels that stand on
the map by then, and to the features unless it may cross their lines. Labelling never takes a placed
label back, so what was true when the label was placed is true of the labelled map
(`LabelMap.exists_foundFree`). Two labels of which neither was forced do not overlap, because one of
them was placed first (`LabelMap.placedBefore_or`).
-/

namespace LabelPlacement

variable {α : Type}

/-! ### What a run has checked -/

section
variable [Scalar α] [LawfulScalar α]

theorem Run.clearance_nonneg (run : Run α) (kind : BufferKind) : 0 ≤ run.clearance kind :=
  Scalar.right_le_larger LawfulScalar.zero_le_zero

/-- The boxes that are searched for conflicts hold those within each clearance. -/
theorem Run.clearance_le_reach (run : Run α) (kind : BufferKind) :
    run.clearance kind ≤ Scalar.larger (run.clearance .label) (run.clearance .feature) := by
  have hdefined : ∀ kind, run.clearance kind ≤ run.clearance kind := fun kind =>
    LawfulScalar.right_of_le (run.clearance_nonneg kind)
  cases kind with
  | label => exact Scalar.left_le_larger (hdefined .label)
  | feature => exact Scalar.right_le_larger (hdefined .feature)

theorem Run.isInTheWay_of_conflicts {run : Run α} {bounds : Box α}
    (hfree : run.conflicts bounds = []) {entry : Occupied α}
    (hmem : entry ∈ run.workspace.index.entries) (kind : BufferKind)
    (hintersects : (bounds.expanded (run.clearance kind)).intersects entry.bounds = true) :
    run.isInTheWay bounds entry = false := by
  have hreached := Box.intersects_expanded_of_le (run.clearance_nonneg kind)
    (run.clearance_le_reach kind) hintersects
  have hnone := List.filter_eq_nil_iff.mp hfree entry
    (List.mem_filter.mpr ⟨hmem, hreached⟩)
  simpa using hnone

theorem Run.not_intersects_label {run : Run α} {bounds : Box α}
    (hfree : run.conflicts bounds = []) {id : Nat} {other : Box α}
    (hmem : ⟨.label id, other⟩ ∈ run.workspace.index.entries) (hid : id ≠ run.request.id) :
    (bounds.expanded (run.clearance .label)).intersects other = false := by
  by_contra hintersects
  rw [Bool.not_eq_false] at hintersects
  have hway := isInTheWay_of_conflicts hfree hmem .label hintersects
  simp [isInTheWay, hid, hintersects] at hway

theorem Run.not_intersects_feature {run : Run α} {bounds : Box α}
    (hfree : run.conflicts bounds = []) (hlines : run.relaxations.overline = false)
    {feature : Nat} {kind : ObstacleKind} {other : Box α}
    (hmem : ⟨.feature feature kind, other⟩ ∈ run.workspace.index.entries)
    (hfeature : feature ≠ run.request.feature) :
    (bounds.expanded (run.clearance .feature)).intersects other = false := by
  by_contra hintersects
  rw [Bool.not_eq_false] at hintersects
  have hway := isInTheWay_of_conflicts hfree hmem .feature hintersects
  simp [isInTheWay, hfeature, hlines, hintersects] at hway

variable {mayCross : Bool} {index : SpatialIndex α} {request : Request α} {placement : Placement α}

omit [LawfulScalar α] in
theorem FoundFree.congr {after : Request α}
    (hfound : FoundFree mayCross index request placement) (hreset : after.reset = request.reset) :
    FoundFree mayCross index after placement := by
  obtain ⟨run, hindex, hid, hfeature, hrest⟩ := hfound
  rw [Request.reset_eq, Request.reset_eq] at hreset
  have hsameId : after.id = request.id := (congrArg Request.id hreset :)
  have hsameFeature : after.feature = request.feature := (congrArg Request.feature hreset :)
  exact ⟨run, hindex, hid.trans hsameId.symm, hfeature.trans hsameFeature.symm, hrest⟩

theorem FoundFree.not_intersects_label (hfound : FoundFree mayCross index request placement)
    {id : Nat} {other : Box α} (hmem : ⟨.label id, other⟩ ∈ index.entries) (hid : id ≠ request.id) :
    (placement.bounds.expanded (Scalar.larger placement.buffers.label 0)).intersects other =
      false := by
  obtain ⟨run, rfl, hsame, _, hbuffers, _, hfree⟩ := hfound
  rw [← hsame] at hid
  rw [← hbuffers]
  exact Run.not_intersects_label hfree hmem hid

theorem FoundFree.not_intersects_feature (hfound : FoundFree mayCross index request placement)
    (hlines : mayCross = false) {feature : Nat} {kind : ObstacleKind} {other : Box α}
    (hmem : ⟨.feature feature kind, other⟩ ∈ index.entries) (hfeature : feature ≠ request.feature) :
    (placement.bounds.expanded (Scalar.larger placement.buffers.feature 0)).intersects other =
      false := by
  obtain ⟨run, rfl, _, hsame, hbuffers, hrelaxed, hfree⟩ := hfound
  rw [← hsame] at hfeature
  rw [← hbuffers]
  exact Run.not_intersects_feature hfree (hrelaxed hlines) hmem hfeature

end

namespace LabelMap

/-! ### Placed labels stay -/

/-- Every placed request has its box on the map. -/
structure Entered (map : LabelMap α) : Prop extends map.StatesAgree where
  entered : ∀ request ∈ map.requests, ∀ placement, request.placement = some placement →
    ⟨.label request.id, placement.bounds⟩ ∈ map.workspace.index.entries

theorem entered_cleared {map : LabelMap α} (hids : (map.requests.map (·.id)).Nodup) :
    map.cleared.Entered := by
  refine ⟨statesAgree_cleared hids, fun request hmem placement hplaced => ?_⟩
  rw [placement_of_mem_cleared hmem] at hplaced
  cases hplaced

theorem mayCrossLines_congr {map other : LabelMap α} {request after : Request α}
    (hclasses : other.classes = map.classes) (hreset : after.reset = request.reset) :
    other.mayCrossLines after = map.mayCrossLines request := by
  rw [Request.reset_eq, Request.reset_eq] at hreset
  have hclass : after.labelClass = request.labelClass := (congrArg Request.labelClass hreset :)
  rw [mayCrossLines, mayCrossLines, class?, class?, hclasses, hclass]

variable [Trigonometric α]

theorem Entered.step {before after : LabelMap α} (hentered : before.Entered)
    (hstep : Step before after) : after.Entered := by
  refine ⟨hentered.toStatesAgree.step hstep, ?_⟩
  cases hstep with
  | taken => exact hentered.entered
  | @turn position request after workspace hfound hstatus hplacement hturned =>
    intro other hmem placement hother
    have hid := hturned.id_eq
    have hold := eq_or_mem_of_mem_set hentered.ids hfound hid hmem
    cases hturned with
    | unsettled _ _ hkept | deferred _ _ hkept | suppressed _ _ hkept =>
      rcases hold with rfl | ⟨hold, _⟩
      · rw [hkept, hplacement] at hother
        cases hother
      · exact hentered.entered other hold placement hother
    | placed _ entry hafter =>
      rcases hold with rfl | ⟨hold, hdifferent⟩
      · obtain rfl := Option.some.inj (hafter.symm.trans hother)
        rw [hid]
        exact List.mem_append_right _ (List.mem_singleton_self _)
      · refine List.mem_append_left _ (List.mem_filter.mpr ⟨?_, ?_⟩)
        · exact hentered.entered other hold placement hother
        · exact Owner.bne_label.mpr fun howner => hdifferent (Owner.label.inj howner)

theorem Entered.steps {before after : LabelMap α} (hentered : before.Entered)
    (hsteps : Steps before after) : after.Entered :=
  hsteps.preserves Entered.step hentered

theorem Step.mem_of_placed {before after : LabelMap α} (hstep : Step before after)
    {request : Request α} (hmem : request ∈ before.requests)
    (hplaced : request.placement.isSome = true) : request ∈ after.requests := by
  cases hstep with
  | taken => exact hmem
  | @turn position turning after workspace hfound hstatus hplacement hturned =>
    obtain ⟨other, hother⟩ := List.getElem?_of_mem hmem
    have hdifferent : position ≠ other := by
      rintro rfl
      rw [hfound] at hother
      rw [← Option.some.inj hother, hplacement] at hplaced
      cases hplaced
    refine List.mem_of_getElem? (i := other) ?_
    rwa [List.getElem?_set_ne hdifferent]

theorem Steps.mem_of_placed {before after : LabelMap α} (hsteps : Steps before after)
    {request : Request α} (hmem : request ∈ before.requests)
    (hplaced : request.placement.isSome = true) : request ∈ after.requests :=
  hsteps.preserves (fun hmem hstep => Step.mem_of_placed hstep hmem hplaced) hmem

/-! ### The step that places a label -/

/-- Whether the request of a number stands on the map. -/
def HasPlaced (map : LabelMap α) (id : Nat) : Prop :=
  ∃ request ∈ map.requests, request.id = id ∧ request.placement.isSome = true

/-- A label that is placed in the end without being forced was found free at a moment in between. -/
theorem exists_foundFree {start final : LabelMap α} (hsteps : Steps start final)
    {request : Request α} {placement : Placement α} (hmem : request ∈ final.requests)
    (hplacement : request.placement = some placement) (hfree : request.status.isFree = true)
    (hnot : ¬start.HasPlaced request.id) :
    ∃ moment, Steps start moment ∧ Steps moment final ∧
      FoundFree (final.mayCrossLines request) moment.workspace.index request placement := by
  induction hsteps with
  | refl => exact absurd ⟨request, hmem, rfl, by rw [hplacement]; rfl⟩ hnot
  | @tail before after hbefore hstep ih =>
    have hkept : request ∈ before.requests → ∃ moment, Steps start moment ∧ Steps moment after ∧
        FoundFree (after.mayCrossLines request) moment.workspace.index request placement := by
      intro hold
      obtain ⟨moment, hfirst, hlast, hfound⟩ := ih hold
      refine ⟨moment, hfirst, hlast.tail hstep, ?_⟩
      rwa [mayCrossLines_congr hstep.sameOutline.classes rfl]
    have hclasses := hstep.sameOutline.classes
    cases hstep with
    | taken => exact hkept hmem
    | @turn position turning changed workspace hfound hstatus hunplaced hturned =>
      rcases List.mem_or_eq_of_mem_set hmem with hold | rfl
      · exact hkept hold
      · refine ⟨before, hbefore, .single (.turn hfound hstatus hunplaced hturned), ?_⟩
        rw [mayCrossLines_congr hclasses hturned.reset_eq]
        cases hturned with
        | unsettled _ _ hsame | deferred _ _ hsame | suppressed _ _ hsame =>
          rw [hsame, hunplaced] at hplacement
          cases hplacement
        | placed hreset other hother _ _ hchecked =>
          obtain rfl := Option.some.inj (hother.symm.trans hplacement)
          exact (hchecked hfree).congr hreset

/-- The request of one number stood on the map at a moment at which that of another one did not. -/
def PlacedBefore (conditions : Conditions) (map : LabelMap α) (first second : Nat) : Prop :=
  ∃ moment ∈ moments conditions map, moment.HasPlaced first ∧ ¬moment.HasPlaced second

/-- A step places one label at most. -/
theorem Step.eq_of_placed {before after : LabelMap α} (hstep : Step before after)
    {first second : Nat} (hfirst : after.HasPlaced first) (hsecond : after.HasPlaced second)
    (hnotFirst : ¬before.HasPlaced first) (hnotSecond : ¬before.HasPlaced second) :
    first = second := by
  cases hstep with
  | taken => exact absurd hfirst hnotFirst
  | @turn position request after workspace hfound hstatus hplacement hturned =>
    have honly : ∀ {id}, HasPlaced { before with
        requests := before.requests.set position after, workspace } id →
        ¬before.HasPlaced id → id = after.id := by
      rintro id ⟨other, hmem, rfl, hplaced⟩ hnot
      rcases List.mem_or_eq_of_mem_set hmem with hold | rfl
      · exact absurd ⟨other, hold, rfl, hplaced⟩ hnot
      · rfl
    rw [honly hfirst hnotFirst, honly hsecond hnotSecond]

/-- Between a map with neither of two labels and one with both there is one with a single one. -/
theorem exists_one_placed {maps : List (LabelMap α)} {start final : LabelMap α}
    (hchain : maps.IsChain (Relation.ReflGen Step)) (hstart : maps.head? = some start)
    (hfinal : maps.getLast? = some final) {first second : Nat} (hdifferent : first ≠ second)
    (hnotFirst : ¬start.HasPlaced first) (hnotSecond : ¬start.HasPlaced second)
    (hfirst : final.HasPlaced first) (hsecond : final.HasPlaced second) :
    ∃ map ∈ maps, (map.HasPlaced first ∧ ¬map.HasPlaced second) ∨
      (map.HasPlaced second ∧ ¬map.HasPlaced first) := by
  induction maps generalizing start with
  | nil => cases hstart
  | cons head rest ih =>
    obtain rfl : head = start := Option.some.inj hstart
    cases rest with
    | nil =>
      obtain rfl : head = final := Option.some.inj hfinal
      exact absurd hfirst hnotFirst
    | cons next rest =>
      obtain ⟨hstep, hrest⟩ := List.isChain_cons_cons.mp hchain
      by_cases hnextFirst : next.HasPlaced first <;> by_cases hnextSecond : next.HasPlaced second
      · cases hstep with
        | refl => exact absurd hnextFirst hnotFirst
        | single hstep =>
          exact absurd (hstep.eq_of_placed hnextFirst hnextSecond hnotFirst hnotSecond) hdifferent
      · exact ⟨next, by simp, Or.inl ⟨hnextFirst, hnextSecond⟩⟩
      · exact ⟨next, by simp, Or.inr ⟨hnextSecond, hnextFirst⟩⟩
      · obtain ⟨map, hmem, hone⟩ := ih hrest rfl (by simpa using hfinal) hnextFirst hnextSecond
        exact ⟨map, List.mem_cons_of_mem _ hmem, hone⟩

omit [Trigonometric α] in
theorem not_hasPlaced_cleared (map : LabelMap α) (id : Nat) : ¬map.cleared.HasPlaced id := by
  rintro ⟨request, hmem, _, hplaced⟩
  rw [placement_of_mem_cleared hmem] at hplaced
  cases hplaced

theorem placedBefore_or {map : LabelMap α} (hids : (map.requests.map (·.id)).Nodup)
    {conditions : Conditions} {first second : Nat} (hdifferent : first ≠ second)
    (hfirst : (map.labelUnder conditions).2.HasPlaced first)
    (hsecond : (map.labelUnder conditions).2.HasPlaced second) :
    PlacedBefore conditions map first second ∨ PlacedBefore conditions map second first := by
  obtain ⟨moment, hmoment, hone⟩ := exists_one_placed (isChain_moments hids conditions)
    (head?_moments conditions map) (getLast?_moments conditions map) hdifferent
    (map.not_hasPlaced_cleared first) (map.not_hasPlaced_cleared second) hfirst hsecond
  exact hone.imp (fun hfirst => ⟨moment, hmoment, hfirst⟩) fun hsecond => ⟨moment, hmoment, hsecond⟩

/-! ### The labelled map -/

section
variable [LawfulScalar α] {map : LabelMap α} {conditions : Conditions}
variable {request other : Request α} {placement otherPlacement : Placement α}

theorem not_intersects_placedBefore (hids : (map.requests.map (·.id)).Nodup)
    (hmem : request ∈ (map.labelUnder conditions).2.requests)
    (hplacement : request.placement = some placement) (hfree : request.status.isFree = true)
    (hother : other ∈ (map.labelUnder conditions).2.requests)
    (hotherPlacement : other.placement = some otherPlacement)
    (hbefore : PlacedBefore conditions map other.id request.id) :
    (placement.bounds.expanded (Scalar.larger placement.buffers.label 0)).intersects
      otherPlacement.bounds = false := by
  obtain ⟨moment, hmoment, ⟨earlier, hearlier, hid, hplaced⟩, hnot⟩ := hbefore
  obtain ⟨hfirst, hlast⟩ := steps_of_mem_moments hids conditions moment hmoment
  obtain ⟨found, hbetween, _, hfound⟩ := exists_foundFree hlast hmem hplacement hfree hnot
  have hfinalIds : ((map.labelUnder conditions).2.requests.map (·.id)).Nodup := by
    rwa [(sameOutline_labelUnder hids conditions).ids]
  obtain rfl : earlier = other :=
    List.inj_on_of_nodup_map hfinalIds (hlast.mem_of_placed hearlier hplaced) hother hid
  have hentered : found.Entered := (entered_cleared hids).steps (hfirst.trans hbetween)
  have hentry := hentered.entered earlier (hbetween.mem_of_placed hearlier hplaced) _
    hotherPlacement
  refine hfound.not_intersects_label hentry fun hsame => hnot ?_
  exact ⟨earlier, hearlier, hsame, hplaced⟩

theorem not_intersects_features (hids : (map.requests.map (·.id)).Nodup)
    (hmem : request ∈ (map.labelUnder conditions).2.requests)
    (hplacement : request.placement = some placement) (hfree : request.status.isFree = true)
    (hlines : map.mayCrossLines request = false) {entry : Occupied α}
    (hentry : entry ∈ (map.labelUnder conditions).2.workspace.index.features)
    (howner : entry.owner.feature? ≠ some request.feature) :
    (placement.bounds.expanded (Scalar.larger placement.buffers.feature 0)).intersects
      entry.bounds = false := by
  have hsteps := steps_labelUnder hids conditions
  obtain ⟨found, hbefore, hafter, hfound⟩ :=
    exists_foundFree hsteps hmem hplacement hfree (map.not_hasPlaced_cleared request.id)
  rw [hafter.sameOutline.features, SpatialIndex.mem_features] at hentry
  obtain ⟨hentered, feature, kind, hfeature⟩ := hentry
  obtain ⟨owner, bounds⟩ := entry
  obtain rfl : owner = .feature feature kind := hfeature
  rw [mayCrossLines_congr (sameOutline_labelUnder hids conditions).classes rfl] at hfound
  exact hfound.not_intersects_feature hlines hentered fun hsame => howner (congrArg some hsame)

theorem not_intersects_of_isFree (hids : (map.requests.map (·.id)).Nodup)
    (hmem : request ∈ (map.labelUnder conditions).2.requests)
    (hplacement : request.placement = some placement) (hfree : request.status.isFree = true)
    (hother : other ∈ (map.labelUnder conditions).2.requests)
    (hotherPlacement : other.placement = some otherPlacement)
    (hotherFree : other.status.isFree = true) (hdifferent : other.id ≠ request.id) :
    placement.bounds.intersects otherPlacement.bounds = false := by
  have hclear : ∀ {box other : Box α} {buffer : α},
      (box.expanded (Scalar.larger buffer 0)).intersects other = false →
        box.intersects other = false := by
    intro box other buffer hexpanded
    have hmargin : (0 : α) ≤ Scalar.larger buffer 0 :=
      Scalar.right_le_larger LawfulScalar.zero_le_zero
    by_contra hintersects
    rw [Bool.not_eq_false] at hintersects
    rw [Box.intersects_expanded hmargin hintersects] at hexpanded
    cases hexpanded
  rcases placedBefore_or hids hdifferent
    ⟨other, hother, rfl, by rw [hotherPlacement]; rfl⟩
    ⟨request, hmem, rfl, by rw [hplacement]; rfl⟩ with hfirst | hlater
  · exact hclear (not_intersects_placedBefore hids hmem hplacement hfree hother hotherPlacement
      hfirst)
  · rw [Box.intersects_comm]
    exact hclear (not_intersects_placedBefore hids hother hotherPlacement hotherFree hmem hplacement
      hlater)

/-- **Placed labels keep their distance.** Once a map is labelled, whether completely or not, every
request whose label was placed without being forced has a placement whose box, with its clearance to
labels around it, does not overlap any label that was placed before, forced or not. With its
clearance to features, the box does not overlap any part of another feature either, unless the
sequence of its class lets labels cross lines. Two labels of which neither was forced do not
overlap. -/
theorem placed_labels_keep_clear (map : LabelMap α) (conditions : Conditions)
    (hids : (map.requests.map (·.id)).Nodup) :
    let final := (map.labelUnder conditions).2
    ∀ request ∈ final.requests, request.status.isFree = true →
      ∃ placement, request.placement = some placement ∧
        (∀ other ∈ final.requests, ∀ otherPlacement, other.placement = some otherPlacement →
          PlacedBefore conditions map other.id request.id →
          (placement.bounds.expanded (Scalar.larger placement.buffers.label 0)).intersects
            otherPlacement.bounds = false) ∧
        (map.mayCrossLines request = false → ∀ entry ∈ final.workspace.index.features,
          entry.owner.feature? ≠ some request.feature →
          (placement.bounds.expanded (Scalar.larger placement.buffers.feature 0)).intersects
            entry.bounds = false) ∧
        ∀ other ∈ final.requests, other.id ≠ request.id → other.status.isFree = true →
          ∀ otherPlacement, other.placement = some otherPlacement →
          placement.bounds.intersects otherPlacement.bounds = false := by
  intro final request hmem hfree
  have hentered : final.Entered := (entered_cleared hids).steps (steps_labelUnder hids conditions)
  have hplaced : request.placement.isSome = true := by
    rw [hentered.placed request hmem]
    exact Status.isPlaced_of_isFree hfree
  obtain ⟨placement, hplacement⟩ := Option.isSome_iff_exists.mp hplaced
  refine ⟨placement, hplacement, ?_, ?_, ?_⟩
  · intro other hother otherPlacement hotherPlacement hbefore
    exact not_intersects_placedBefore hids hmem hplacement hfree hother hotherPlacement hbefore
  · intro hlines entry hentry howner
    exact not_intersects_features hids hmem hplacement hfree hlines hentry howner
  · intro other hother hdifferent hotherFree otherPlacement hotherPlacement
    exact not_intersects_of_isFree hids hmem hplacement hfree hother hotherPlacement hotherFree
      hdifferent

end

/-! ### Three towns -/

/-- The label of the second town is in the way of the first one, that of the third one is not. -/
def towns : LabelMap Rat :=
  let town (id : Nat) (position : Point Rat) : Request Rat :=
    .create id id "town" (.point position) (.single "Bern") ⟨10, ⟨1, 1⟩⟩
  { empty .standard {} with
      classes := [("town", ⟨[⟨1, .point ⟨[.north, .east], 0⟩⟩, ⟨2, .failure .force⟩], 3⟩)]
      requests := [town 1 ⟨0, 0⟩, town 2 ⟨0, 1⟩, town 3 ⟨100, 0⟩] }

theorem order_towns : order towns.cleared.requests = [0, 1, 2] :=
  order_of_pairwise (by decide +kernel)

/-- The third town keeps its clearance to the second one, which was forced before. -/
theorem third_town_keeps_clear :
    (towns.requests.map (·.id)).Nodup ∧ PlacedBefore towns.conditions towns 2 3 ∧
      ∃ request ∈ towns.label.2.requests, request.status.isFree = true ∧
      ∃ placement, request.placement = some placement ∧
      ∃ other ∈ towns.label.2.requests, other.status.isFree = false ∧
      ∃ otherPlacement, other.placement = some otherPlacement ∧
        (placement.bounds.expanded (Scalar.larger placement.buffers.label 0)).intersects
          otherPlacement.bounds = false := by
  have hids : (towns.requests.map (·.id)).Nodup := by decide
  have hbefore : PlacedBefore towns.conditions towns 2 3 := by
    simp only [PlacedBefore, HasPlaced, moments, order_towns]
    decide +kernel
  have hthird : ∃ request ∈ towns.label.2.requests,
      request.id = 3 ∧ request.status.isFree = true := by
    simp only [label, labelUnder, order_towns]
    decide +kernel
  have hsecond : ∃ other ∈ towns.label.2.requests,
      other.id = 2 ∧ other.status.isFree = false ∧ other.placement.isSome = true := by
    simp only [label, labelUnder, order_towns]
    decide +kernel
  obtain ⟨request, hmem, hid, hfree⟩ := hthird
  obtain ⟨other, hother, hotherId, hforced, hplaced⟩ := hsecond
  obtain ⟨otherPlacement, hotherPlacement⟩ := Option.isSome_iff_exists.mp hplaced
  obtain ⟨placement, hplacement, hclear, -⟩ :=
    placed_labels_keep_clear towns towns.conditions hids request hmem hfree
  rw [← hid, ← hotherId] at hbefore
  refine ⟨hids, by rwa [hid, hotherId] at hbefore, request, hmem, hfree, placement, hplacement,
    other, hother, hforced, otherPlacement, hotherPlacement, ?_⟩
  exact hclear other hother otherPlacement hotherPlacement hbefore

end LabelMap

end LabelPlacement
