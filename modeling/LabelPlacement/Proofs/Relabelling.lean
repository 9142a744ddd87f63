import LabelPlacement.Proofs.Exact
import LabelPlacement.Proofs.Records
import LabelPlacement.Proofs.Recovery

/-!
# Labelling again

Labelling forgets what an earlier labelling has left on a map. Two maps are alike if they were
declared alike, whatever has become of their requests since (`LabelMap.Alike`). Once they are
cleared, they coincide in all that a turn reads (`LabelMap.Coincides`), and they still do after
every turn, of the main pass and of the pass over the leaders that were put off. The labelled map is
alike to the one before, so that labelling a second time changes nothing.
-/

namespace LabelPlacement

variable {α : Type}

/-! ### Declarations -/

namespace Request

/-- Two requests ask for the same label. They may differ in their working state, in what is hidden
and in what has become of them. -/
structure SameDeclaration (left right : Request α) : Prop where
  id : left.id = right.id
  feature : left.feature = right.feature
  labelClass : left.labelClass = right.labelClass
  shape : left.shape = right.shape
  symbol : left.symbol = right.symbol
  content : left.content.shown = right.content.shown
  style : left.style = right.style
  priority : left.priority = right.priority

theorem sameDeclaration_iff {left right : Request α} :
    left.SameDeclaration right ↔ left.reset = right.reset := by
  rw [reset_eq, reset_eq]
  constructor
  · rintro ⟨hid, hfeature, hclass, hshape, hsymbol, hcontent, hstyle, hpriority⟩
    simp only [declared, shown, mk.injEq]
    exact ⟨hid, hfeature, hclass, hshape, hsymbol, hcontent, hstyle, hpriority, by rw [hstyle],
      trivial, trivial⟩
  · intro hreset
    simp only [declared, shown, mk.injEq] at hreset
    obtain ⟨hid, hfeature, hclass, hshape, hsymbol, hcontent, hstyle, hpriority, -⟩ := hreset
    exact ⟨hid, hfeature, hclass, hshape, hsymbol, hcontent, hstyle, hpriority⟩

theorem forall₂_sameDeclaration_iff {left right : List (Request α)} :
    List.Forall₂ SameDeclaration left right ↔ left.map reset = right.map reset := by
  rw [← List.forall₂_eq_eq_eq, List.forall₂_map_left_iff, List.forall₂_map_right_iff]
  exact ⟨List.Forall₂.imp fun _ _ => sameDeclaration_iff.mp,
    List.Forall₂.imp fun _ _ => sameDeclaration_iff.mpr⟩

theorem reset_reset (request : Request α) : request.reset.reset = request.reset := by
  rw [reset_eq request.reset, request.isReset_reset.declared_eq]
  rfl

end Request

namespace LabelMap

/-- Two maps were declared alike: they differ at most in what labelling leaves behind, and in what
only tells how requests and obstacles are to be added. -/
structure Alike (left right : LabelMap α) : Prop where
  classes : left.classes = right.classes
  options : left.options = right.options
  interrupt : left.interrupt = right.interrupt
  metrics : left.workspace.metrics = right.workspace.metrics
  placementOptions : left.workspace.options = right.workspace.options
  requests : List.Forall₂ Request.SameDeclaration left.requests right.requests
  features : left.workspace.index.features = right.workspace.index.features

/-- Every label on the map is that of a request. -/
def OwnsLabels (map : LabelMap α) : Prop :=
  ∀ entry ∈ map.workspace.index.labels, ∃ request ∈ map.requests, entry.owner = .label request.id

instance (map : LabelMap α) : Decidable map.OwnsLabels :=
  inferInstanceAs (Decidable (∀ entry ∈ map.workspace.index.labels,
    ∃ request ∈ map.requests, entry.owner = .label request.id))

/-- Two maps coincide in all that labelling reads of a cleared map. -/
structure Coincides (left right : LabelMap α) : Prop where
  classes : left.classes = right.classes
  options : left.options = right.options
  requests : left.requests = right.requests
  workspace : left.workspace = right.workspace

theorem Alike.refl (map : LabelMap α) : map.Alike map :=
  ⟨rfl, rfl, rfl, rfl, rfl, Request.forall₂_sameDeclaration_iff.mpr rfl, rfl⟩

theorem Alike.trans {first second third : LabelMap α} (hleft : first.Alike second)
    (hright : second.Alike third) : first.Alike third where
  classes := hleft.classes.trans hright.classes
  options := hleft.options.trans hright.options
  interrupt := hleft.interrupt.trans hright.interrupt
  metrics := hleft.metrics.trans hright.metrics
  placementOptions := hleft.placementOptions.trans hright.placementOptions
  requests := Request.forall₂_sameDeclaration_iff.mpr
    ((Request.forall₂_sameDeclaration_iff.mp hleft.requests).trans
      (Request.forall₂_sameDeclaration_iff.mp hright.requests))
  features := hleft.features.trans hright.features

/-! ### Clearing -/

theorem alike_cleared (map : LabelMap α) : map.Alike map.cleared where
  classes := rfl
  options := rfl
  interrupt := rfl
  metrics := rfl
  placementOptions := rfl
  requests := by
    rw [Request.forall₂_sameDeclaration_iff, cleared, List.map_map]
    exact List.map_congr_left fun request _ => request.reset_reset.symm
  features := (features_foldl_removeLabel _ _).symm

theorem features_eq_entries {index : SpatialIndex α} (hlabels : index.labels = []) :
    index.features = index.entries := by
  refine List.filter_eq_self.mpr fun entry hmem => ?_
  by_contra hnone
  have hlabel : entry ∈ index.labels := List.mem_filter.mpr ⟨hmem, by simpa using hnone⟩
  rw [hlabels] at hlabel
  cases hlabel

/-- Without labels, nothing but the boxes of features is left. -/
theorem workspace_cleared_eq {left right : LabelMap α}
    (hmetrics : left.workspace.metrics = right.workspace.metrics)
    (hoptions : left.workspace.options = right.workspace.options)
    (hfeatures : left.workspace.index.features = right.workspace.index.features)
    (hleft : left.OwnsLabels) (hright : right.OwnsLabels) :
    left.cleared.workspace = right.cleared.workspace := by
  have hentries : left.cleared.workspace.index.entries =
      right.cleared.workspace.index.entries := by
    calc left.cleared.workspace.index.entries
        = left.cleared.workspace.index.features :=
          (features_eq_entries (labels_cleared hleft)).symm
      _ = left.workspace.index.features := features_foldl_removeLabel _ _
      _ = right.workspace.index.features := hfeatures
      _ = right.cleared.workspace.index.features := (features_foldl_removeLabel _ _).symm
      _ = right.cleared.workspace.index.entries := features_eq_entries (labels_cleared hright)
  have hindex : left.cleared.workspace.index = right.cleared.workspace.index :=
    congrArg SpatialIndex.mk hentries
  change Workspace.mk left.cleared.workspace.index _ _ _ = Workspace.mk _ _ _ _
  rw [hindex, hmetrics, hoptions]
  rfl

theorem Alike.coincides_cleared {left right : LabelMap α} (halike : left.Alike right)
    (hleft : left.OwnsLabels) (hright : right.OwnsLabels) :
    left.cleared.Coincides right.cleared where
  classes := halike.classes
  options := halike.options
  requests := Request.forall₂_sameDeclaration_iff.mp halike.requests
  workspace := workspace_cleared_eq halike.metrics halike.placementOptions halike.features hleft
    hright

/-! ### Turns -/

section
variable [Trigonometric α]

theorem Coincides.placeRequest {left right : LabelMap α} (hsame : left.Coincides right)
    (request : Request α) : left.placeRequest request = right.placeRequest request := by
  simp only [LabelMap.placeRequest, class?, hsame.classes, hsame.workspace]

theorem Coincides.placeAt {left right : LabelMap α} (hsame : left.Coincides right)
    (position : Nat) :
    (left.placeAt position).1 = (right.placeAt position).1 ∧
      (left.placeAt position).2.Coincides (right.placeAt position).2 := by
  simp only [LabelMap.placeAt, hsame.requests]
  cases right.requests[position]? with
  | none => exact ⟨rfl, hsame⟩
  | some request =>
    simp only [hsame.placeRequest]
    exact ⟨trivial, hsame.classes, hsame.options, rfl, rfl⟩

theorem options_placeAt (map : LabelMap α) (position : Nat) :
    (map.placeAt position).2.options = map.options := by
  cases hfound : map.requests[position]? with
  | none => rw [placeAt_of_none hfound]
  | some request => rw [placeAt_eq hfound]

theorem stop?_eq {conditions other : Conditions} {options : LabelingOptions}
    (hlimit : options.timeLimit = none) (hinterrupted : conditions.interrupted = other.interrupted)
    (turn : Nat) : conditions.stop? options turn = other.stop? options turn := by
  simp only [Conditions.stop?, hlimit, hinterrupted, Option.any_none]

/-- **The main pass.** -/
theorem Coincides.placeAll {left right : LabelMap α} (hsame : left.Coincides right)
    {conditions other : Conditions} (hlimit : left.options.timeLimit = none)
    (hinterrupted : conditions.interrupted = other.interrupted) (turn : Nat)
    (positions : List Nat) :
    (placeAll conditions left turn positions).2 = (placeAll other right turn positions).2 ∧
      (placeAll conditions left turn positions).1.Coincides
        (placeAll other right turn positions).1 := by
  induction positions generalizing left right turn with
  | nil => exact ⟨rfl, hsame⟩
  | cons position rest ih =>
    have hstop : conditions.stop? left.options turn = other.stop? right.options turn := by
      rw [← hsame.options, stop?_eq hlimit hinterrupted]
    simp only [LabelMap.placeAll, hstop]
    cases other.stop? right.options turn with
    | some stop => exact ⟨rfl, hsame⟩
    | none =>
      obtain ⟨hfailed, hplaced⟩ := hsame.placeAt position
      obtain ⟨hcounts, hfinal⟩ := ih hplaced (by rwa [options_placeAt]) (turn + 1)
      simp only [hfailed, hcounts]
      exact ⟨trivial, hfinal⟩

theorem Coincides.placeDeferred {left right : LabelMap α} (hsame : left.Coincides right)
    (leader : DeferredLeader α) :
    (left.placeDeferred leader).Coincides (right.placeDeferred leader) := by
  simp only [LabelMap.placeDeferred, request?, hsame.requests, hsame.workspace]
  cases right.requests.find? (·.id == leader.request) with
  | none => exact hsame
  | some request =>
    exact ⟨hsame.classes, hsame.options, by simp only [modifyRequest, hsame.requests], rfl⟩

theorem Coincides.foldl_placeDeferred {left right : LabelMap α} (hsame : left.Coincides right)
    (leaders : List (DeferredLeader α)) :
    (leaders.foldl LabelMap.placeDeferred left).Coincides
      (leaders.foldl LabelMap.placeDeferred right) := by
  induction leaders generalizing left right with
  | nil => exact hsame
  | cons leader rest ih => exact ih (hsame.placeDeferred leader)

/-- **The pass over the leaders put off.** -/
theorem Coincides.placeDeferredLeaders {left right : LabelMap α} (hsame : left.Coincides right) :
    left.placeDeferredLeaders.Coincides right.placeDeferredLeaders := by
  rw [LabelMap.placeDeferredLeaders, LabelMap.placeDeferredLeaders, hsame.workspace]
  apply Coincides.foldl_placeDeferred
  exact ⟨hsame.classes, hsame.options, hsame.requests, rfl⟩

/-- **One labelling each.** Maps that were declared alike are labelled alike. -/
theorem Alike.labelUnder {left right : LabelMap α} (halike : left.Alike right)
    (hleft : left.OwnsLabels) (hright : right.OwnsLabels) {conditions other : Conditions}
    (hlimit : left.options.timeLimit = none)
    (hinterrupted : conditions.interrupted = other.interrupted) :
    (left.labelUnder conditions).1 = (right.labelUnder other).1 ∧
      (left.labelUnder conditions).2.Coincides (right.labelUnder other).2 := by
  have hcleared := halike.coincides_cleared hleft hright
  obtain ⟨hcounts, hplaced⟩ := hcleared.placeAll hlimit hinterrupted 0
    (order right.cleared.requests)
  have hfinal := hplaced.placeDeferredLeaders
  simp only [LabelMap.labelUnder, report, hcleared.requests, halike.options, hcounts]
  split
  · exact ⟨by rw [hfinal.requests], hfinal⟩
  · exact ⟨by rw [hplaced.requests], hplaced⟩

/-! ### What labelling leaves alike -/

theorem Step.alike {before after : LabelMap α} (hstep : Step before after) :
    before.Alike after := by
  have hfeatures := hstep.sameOutline.features.symm
  cases hstep with
  | taken => exact ⟨rfl, rfl, rfl, rfl, rfl, (Alike.refl before).requests, rfl⟩
  | turn hfound _ _ hturned =>
    have hrequests := Request.forall₂_sameDeclaration_iff.mpr
      (map_set_of_eq hfound hturned.reset_eq).symm
    cases hturned <;> exact ⟨rfl, rfl, rfl, rfl, rfl, hrequests, hfeatures⟩

theorem Steps.alike {before after : LabelMap α} (hsteps : Steps before after) :
    before.Alike after :=
  hsteps.preserves (fun halike hstep => halike.trans hstep.alike) (.refl before)

theorem alike_labelUnder {map : LabelMap α} (hids : (map.requests.map (·.id)).Nodup)
    (conditions : Conditions) : map.Alike (map.labelUnder conditions).2 :=
  map.alike_cleared.trans (steps_labelUnder hids conditions).alike

end

end LabelMap

end LabelPlacement
