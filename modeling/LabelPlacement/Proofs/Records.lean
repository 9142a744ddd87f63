import Mathlib.Data.List.Perm.Basic
import LabelPlacement.Proofs.Moments

/-!
# The records of placed labels

The state of a request, its placement and the boxes of labels on the map are kept in three places.
`LabelMap.RecordsAgree` says that they tell the same; every step of labelling keeps it up, and
clearing a map establishes it, since the boxes of labels are those of its requests.
-/

namespace LabelPlacement

variable {α : Type}

/-! ### The boxes of labels and of features -/

theorem Owner.bne_label {owner : Owner} {id : Nat} :
    (owner != .label id) = true ↔ owner ≠ .label id := by
  cases owner with
  | label request =>
    change (!(request == id)) = true ↔ _
    simp
  | feature feature kind => exact ⟨fun _ => nofun, fun _ => rfl⟩

namespace SpatialIndex

/-- The boxes of labels, in order. -/
def labels (index : SpatialIndex α) : List (Occupied α) :=
  index.entries.filter fun entry => entry.owner.feature?.isNone

/-- The boxes of features, in order. -/
def features (index : SpatialIndex α) : List (Occupied α) :=
  index.entries.filter fun entry => entry.owner.feature?.isSome

@[simp]
theorem labels_insert (index : SpatialIndex α) (id : Nat) (bounds : Box α) :
    (index.insert ⟨.label id, bounds⟩).labels = index.labels ++ [⟨.label id, bounds⟩] := by
  simp [labels, insert, Owner.feature?]

@[simp]
theorem labels_removeLabel (index : SpatialIndex α) (id : Nat) :
    (index.removeLabel id).labels = index.labels.filter (·.owner != .label id) := by
  simp only [labels, removeLabel, List.filter_filter, Bool.and_comm]

@[simp]
theorem features_insert (index : SpatialIndex α) (id : Nat) (bounds : Box α) :
    (index.insert ⟨.label id, bounds⟩).features = index.features := by
  simp [features, insert, Owner.feature?]

@[simp]
theorem features_removeLabel (index : SpatialIndex α) (id : Nat) :
    (index.removeLabel id).features = index.features := by
  simp only [features, removeLabel, List.filter_filter]
  refine List.filter_congr fun entry _ => ?_
  cases howner : entry.owner with
  | label request => simp [Owner.feature?]
  | feature feature kind =>
    have hother : Owner.feature feature kind ≠ .label id := nofun
    rw [Owner.bne_label.mpr hother, Bool.and_true]

theorem mem_features {index : SpatialIndex α} {entry : Occupied α} :
    entry ∈ index.features ↔
      entry ∈ index.entries ∧ ∃ feature kind, entry.owner = .feature feature kind := by
  rw [features, List.mem_filter]
  cases entry.owner <;> simp [Owner.feature?]

end SpatialIndex

/-! ### One request of a list -/

section FilterMap

variable {ι κ : Type} {select : ι → Option κ}

theorem filterMap_set_of_eq {elements : List ι} {position : Nat} {element changed : ι}
    (hfound : elements[position]? = some element) (hsame : select changed = select element) :
    (elements.set position changed).filterMap select = elements.filterMap select := by
  induction elements generalizing position with
  | nil => rfl
  | cons first rest ih =>
    cases position with
    | zero =>
      obtain rfl : first = element := Option.some.inj hfound
      simp [List.filterMap_cons, hsame]
    | succ position => simp [List.filterMap_cons, ih hfound]

theorem perm_filterMap_set {elements : List ι} {position : Nat} {element changed : ι} {added : κ}
    (hfound : elements[position]? = some element) (hnone : select element = none)
    (hadded : select changed = some added) :
    ((elements.set position changed).filterMap select).Perm
      (added :: elements.filterMap select) := by
  induction elements generalizing position with
  | nil => cases hfound
  | cons first rest ih =>
    cases position with
    | zero =>
      obtain rfl : first = element := Option.some.inj hfound
      simp [hnone, hadded]
    | succ position =>
      have hrest := ih hfound
      rw [List.set_cons_succ]
      cases hfirst : select first with
      | none => simpa [List.filterMap_cons, hfirst] using hrest
      | some kept =>
        simp only [List.filterMap_cons, hfirst]
        exact (hrest.cons kept).trans (.swap added kept _)

end FilterMap

/-! ### Agreement of the records -/

/-- The box that a placed request has on the map. -/
def Request.entry? (request : Request α) : Option (Occupied α) :=
  request.placement.map fun placement => ⟨.label request.id, placement.bounds⟩

namespace LabelMap

/-- The states of requests tell which of them have a placement and which of these a leader line. -/
structure StatesAgree (map : LabelMap α) : Prop where
  ids : (map.requests.map (·.id)).Nodup
  placed : ∀ request ∈ map.requests, request.placement.isSome = request.status.isPlaced
  leader : ∀ request ∈ map.requests, ∀ placement, request.placement = some placement →
    placement.leader.isSome = request.status.hasLeader

/-- The records of a map tell the same: a request has a placement exactly if its state says so, the
placement has a leader line exactly if the state says so, and the boxes of labels on the map are
those of the placements, one for each. -/
structure RecordsAgree (map : LabelMap α) : Prop extends map.StatesAgree where
  labels : map.workspace.index.labels.Perm (map.requests.filterMap Request.entry?)

theorem RecordsAgree.owner_mem {map : LabelMap α} (hagree : map.RecordsAgree)
    {entry : Occupied α} (hmem : entry ∈ map.workspace.index.labels) :
    ∃ request ∈ map.requests, entry.owner = .label request.id ∧ request.placement ≠ none := by
  rw [hagree.labels.mem_iff, List.mem_filterMap] at hmem
  obtain ⟨request, hrequest, hentry⟩ := hmem
  obtain ⟨placement, hplacement, rfl⟩ := Option.map_eq_some_iff.mp hentry
  exact ⟨request, hrequest, rfl, by simp [hplacement]⟩

theorem RecordsAgree.owners {map : LabelMap α} (hagree : map.RecordsAgree) :
    ∀ entry ∈ map.workspace.index.labels,
      ∃ request ∈ map.requests, entry.owner = .label request.id := by
  intro entry hmem
  obtain ⟨request, hrequest, howner, -⟩ := hagree.owner_mem hmem
  exact ⟨request, hrequest, howner⟩

theorem RecordsAgree.filter_labels {map : LabelMap α} (hagree : map.RecordsAgree)
    {request : Request α} (hmem : request ∈ map.requests) (hplacement : request.placement = none) :
    map.workspace.index.labels.filter (·.owner != .label request.id) =
      map.workspace.index.labels := by
  refine List.filter_eq_self.mpr fun entry hentry => Owner.bne_label.mpr fun howner => ?_
  obtain ⟨other, hother, hlabel, hplaced⟩ := hagree.owner_mem hentry
  have hid : other.id = request.id := Owner.label.inj (hlabel.symm.trans howner)
  obtain rfl := List.inj_on_of_nodup_map hagree.ids hother hmem hid
  exact hplaced hplacement

theorem entry?_of_placement_eq {left right : Request α} (hid : left.id = right.id)
    (hplacement : left.placement = right.placement) : left.entry? = right.entry? := by
  rw [Request.entry?, Request.entry?, hid, hplacement]

theorem Turned.records [Scalar α] {mayCross : Bool} {workspace newWorkspace : Workspace α}
    {request after : Request α}
    (hturned : Turned mayCross workspace request newWorkspace after)
    (hstatus : request.status.isPlaced = false) (hplacement : request.placement = none) :
    after.placement.isSome = after.status.isPlaced ∧
      ∀ placement, after.placement = some placement →
        placement.leader.isSome = after.status.hasLeader := by
  cases hturned with
  | unsettled _ hafter hkept => simp [hkept, hplacement, hafter, hstatus]
  | placed _ placement hafter hplaced hleader =>
    refine ⟨by rw [hafter, hplaced]; rfl, fun other hother => ?_⟩
    obtain rfl := Option.some.inj (hafter.symm.trans hother)
    exact hleader
  | deferred _ hafter hkept | suppressed _ hafter hkept =>
    simp [hkept, hplacement, hafter, Status.isPlaced]

/-! ### The cleared map -/

theorem mem_labels_foldl_removeLabel {requests : List (Request α)} {index : SpatialIndex α}
    {entry : Occupied α} :
    entry ∈ (requests.foldl (fun index request => index.removeLabel request.id) index).labels ↔
      entry ∈ index.labels ∧ ∀ request ∈ requests, entry.owner ≠ .label request.id := by
  induction requests generalizing index with
  | nil => simp
  | cons first rest ih =>
    rw [List.foldl_cons, ih, SpatialIndex.labels_removeLabel, List.mem_filter, Owner.bne_label,
      List.forall_mem_cons, and_assoc]

theorem features_foldl_removeLabel (requests : List (Request α)) (index : SpatialIndex α) :
    (requests.foldl (fun index request => index.removeLabel request.id) index).features =
      index.features := by
  induction requests generalizing index with
  | nil => rfl
  | cons first rest ih => rw [List.foldl_cons, ih, SpatialIndex.features_removeLabel]

theorem placement_of_mem_cleared {map : LabelMap α} {request : Request α}
    (hmem : request ∈ map.cleared.requests) : request.placement = none := by
  obtain ⟨original, _, rfl⟩ := exists_of_mem_cleared hmem
  rfl

theorem statesAgree_cleared {map : LabelMap α} (hids : (map.requests.map (·.id)).Nodup) :
    map.cleared.StatesAgree := by
  refine ⟨by rwa [map_id_cleared], fun request hmem => ?_, fun request hmem placement hplaced => ?_⟩
  · rw [placement_of_mem_cleared hmem]
    obtain ⟨original, _, rfl⟩ := exists_of_mem_cleared hmem
    rfl
  · rw [placement_of_mem_cleared hmem] at hplaced
    cases hplaced

/-- Clearing a map leaves no label on it if the boxes of labels were those of its requests. -/
theorem labels_cleared {map : LabelMap α} (howners : ∀ entry ∈ map.workspace.index.labels,
    ∃ request ∈ map.requests, entry.owner = .label request.id) :
    map.cleared.workspace.index.labels = [] := by
  refine List.eq_nil_iff_forall_not_mem.mpr fun entry hmem => ?_
  obtain ⟨hentry, hother⟩ := mem_labels_foldl_removeLabel.mp hmem
  obtain ⟨request, hrequest, howner⟩ := howners entry hentry
  exact hother request hrequest howner

/-- Clearing a map makes its records agree if the boxes of labels were those of its requests. -/
theorem recordsAgree_cleared {map : LabelMap α} (hids : (map.requests.map (·.id)).Nodup)
    (howners : ∀ entry ∈ map.workspace.index.labels,
      ∃ request ∈ map.requests, entry.owner = .label request.id) :
    map.cleared.RecordsAgree := by
  have hnone : map.cleared.requests.filterMap Request.entry? = [] := by
    refine List.filterMap_eq_nil_iff.mpr fun request hmem => ?_
    rw [Request.entry?, placement_of_mem_cleared hmem]
    rfl
  exact ⟨statesAgree_cleared hids, by rw [labels_cleared howners, hnone]⟩

/-! ### Steps -/

variable [Trigonometric α]

theorem StatesAgree.step {before after : LabelMap α} (hagree : before.StatesAgree)
    (hstep : Step before after) : after.StatesAgree := by
  cases hstep with
  | taken => exact ⟨hagree.ids, hagree.placed, hagree.leader⟩
  | @turn position request after workspace hfound hstatus hplacement hturned =>
    obtain ⟨hplaced, hleader⟩ := Turned.records hturned hstatus hplacement
    refine ⟨?_, fun other hmem => ?_, fun other hmem => ?_⟩
    · rw [map_id_set hfound hturned.id_eq]
      exact hagree.ids
    · rcases List.mem_or_eq_of_mem_set hmem with hold | rfl
      · exact hagree.placed other hold
      · exact hplaced
    · rcases List.mem_or_eq_of_mem_set hmem with hold | rfl
      · exact hagree.leader other hold
      · exact hleader

/-- **One step.** -/
theorem RecordsAgree.step {before after : LabelMap α} (hagree : before.RecordsAgree)
    (hstep : Step before after) : after.RecordsAgree := by
  refine ⟨hagree.toStatesAgree.step hstep, ?_⟩
  cases hstep with
  | taken => exact hagree.labels
  | @turn position request after workspace hfound hstatus hplacement hturned =>
    have hid := hturned.id_eq
    have hkept : after.placement = request.placement →
        (before.requests.set position after).filterMap Request.entry? =
          before.requests.filterMap Request.entry? := fun hsame =>
      filterMap_set_of_eq hfound (entry?_of_placement_eq hid hsame)
    cases hturned with
    | unsettled _ _ hsame | deferred _ _ hsame | suppressed _ _ hsame =>
      rw [hkept hsame]
      exact hagree.labels
    | placed _ placement hafter =>
      have hentry : after.entry? = some ⟨.label request.id, placement.bounds⟩ := by
        rw [Request.entry?, hafter, hid]
        rfl
      have hnone : request.entry? = none := by
        rw [Request.entry?, hplacement]
        rfl
      simp only [SpatialIndex.labels_insert, SpatialIndex.labels_removeLabel,
        hagree.filter_labels (List.mem_of_getElem? hfound) hplacement]
      exact (List.perm_append_singleton _ _).trans
        ((hagree.labels.cons _).trans (perm_filterMap_set hfound hnone hentry).symm)

theorem RecordsAgree.steps {before after : LabelMap α} (hagree : before.RecordsAgree)
    (hsteps : Steps before after) : after.RecordsAgree :=
  hsteps.preserves RecordsAgree.step hagree

/-- Labelling makes the records agree if the boxes of labels were those of the requests. -/
theorem recordsAgree_labelUnder {map : LabelMap α} (hids : (map.requests.map (·.id)).Nodup)
    (howners : ∀ entry ∈ map.workspace.index.labels,
      ∃ request ∈ map.requests, entry.owner = .label request.id) (conditions : Conditions) :
    (map.labelUnder conditions).2.RecordsAgree :=
  (recordsAgree_cleared hids howners).steps (steps_labelUnder hids conditions)

/-- What no step changes. -/
structure SameOutline (before after : LabelMap α) : Prop where
  ids : after.requests.map (·.id) = before.requests.map (·.id)
  classes : after.classes = before.classes
  obstacles : after.obstacles = before.obstacles
  nextRequestId : after.nextRequestId = before.nextRequestId
  features : after.workspace.index.features = before.workspace.index.features

theorem Step.sameOutline {before after : LabelMap α} (hstep : Step before after) :
    before.SameOutline after := by
  cases hstep with
  | taken => exact ⟨rfl, rfl, rfl, rfl, rfl⟩
  | turn hfound _ _ hturned =>
    refine ⟨map_id_set hfound hturned.id_eq, rfl, rfl, rfl, ?_⟩
    cases hturned with
    | unsettled | deferred | suppressed => rfl
    | placed => simp

theorem Steps.sameOutline {before after : LabelMap α} (hsteps : Steps before after) :
    before.SameOutline after := by
  induction hsteps with
  | refl => exact ⟨rfl, rfl, rfl, rfl, rfl⟩
  | tail _ hstep ih =>
    have hlast := hstep.sameOutline
    exact ⟨hlast.ids.trans ih.ids, hlast.classes.trans ih.classes,
      hlast.obstacles.trans ih.obstacles, hlast.nextRequestId.trans ih.nextRequestId,
      hlast.features.trans ih.features⟩

theorem sameOutline_labelUnder {map : LabelMap α} (hids : (map.requests.map (·.id)).Nodup)
    (conditions : Conditions) : map.SameOutline (map.labelUnder conditions).2 := by
  have hsteps := (steps_labelUnder hids conditions).sameOutline
  exact ⟨hsteps.ids.trans map.map_id_cleared, hsteps.classes, hsteps.obstacles,
    hsteps.nextRequestId, hsteps.features.trans (features_foldl_removeLabel _ _)⟩

end LabelMap

end LabelPlacement
