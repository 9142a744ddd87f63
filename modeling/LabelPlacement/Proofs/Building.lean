import LabelPlacement.Scalar.Binary64
import LabelPlacement.Proofs.Records

/-!
# Maps as they are built

A map is built from the empty one by defining classes, adding obstacles and requests, and labelling
it at any time; what is refused leaves the map as it was. The boxes of features are those of the
first successful registration of each feature. The records of placed labels agree from labelling on,
until a request is added that claims to be placed already (`LabelMap.AgreesUpTo`).
-/

namespace LabelPlacement

variable {α : Type}

/-- What can be done with a map. -/
inductive Edit (α : Type)
  | defineClass (name : String) (sequence : Sequence α)
  | addObstacle (feature : Nat) (shape : Shape α) (symbol : Option (PointSymbol α))
  | addRequest (make : Nat → Request α)
  | label (conditions : Conditions)

namespace Edit

/-- The map after an edit; an edit that is refused changes nothing. -/
def apply [Trigonometric α] (map : LabelMap α) : Edit α → LabelMap α
  | defineClass name sequence => map.defineClass name sequence
  | addObstacle feature shape symbol =>
    match map.addObstacle feature shape symbol with
    | .ok changed => changed
    | .error _ => map
  | addRequest make =>
    match map.addRequest make with
    | .ok changed => changed
    | .error _ => map
  | label conditions => (map.labelUnder conditions).2

/-- The feature that an edit registers with its boxes, unless it has none. -/
def registration? [Scalar α] (map : LabelMap α) : Edit α → Option (Nat × List (Occupied α))
  | addObstacle feature shape symbol =>
    (featureObstacles feature shape symbol).toOption.map (feature, ·)
  | addRequest make =>
    let request := make map.nextRequestId
    (featureObstacles request.feature request.shape request.symbol).toOption.map
      (request.feature, ·)
  | defineClass .. | label _ => none

/-- The request that an edit adds. -/
def added? [Scalar α] (map : LabelMap α) : Edit α → Option (Request α)
  | addRequest make => (map.addRequest make).toOption.map fun _ => make map.nextRequestId
  | defineClass .. | addObstacle .. | label _ => none

/-- Of requests added since the last labelling, those that still are after an edit. -/
def stillAdded (recent : List (Request α)) : Edit α → List (Request α)
  | label _ => []
  | defineClass .. | addObstacle .. | addRequest _ => recent

/-- A request is made with the number that is given out for it. -/
def UsesGivenId : Edit α → Prop
  | addRequest make => ∀ id, (make id).id = id
  | _ => True

end Edit

/-- The requests added since the last labelling, after some that were added before the edits. -/
def addedSinceLabel [Trigonometric α] (map : LabelMap α) (recent : List (Request α)) :
    List (Edit α) → List (Request α)
  | [] => recent
  | edit :: rest =>
    addedSinceLabel (edit.apply map) (edit.stillAdded recent ++ (edit.added? map).toList) rest

/-- The registrations that edits make one after the other, those of known features included. -/
def registrations [Trigonometric α] (map : LabelMap α) :
    List (Edit α) → List (Nat × List (Occupied α))
  | [] => []
  | edit :: rest => (edit.registration? map).toList ++ registrations (edit.apply map) rest

/-- The first entry of each key that has not been seen. -/
def firstOfEach {ι : Type} (seen : List Nat) : List (Nat × ι) → List (Nat × ι)
  | [] => []
  | entry :: rest =>
    if seen.contains entry.1 then firstOfEach seen rest
    else entry :: firstOfEach (entry.1 :: seen) rest

namespace LabelMap

/-- The map that edits make of the empty one. -/
def built [Trigonometric α] (placement : PlacementOptions α) (options : LabelingOptions)
    (edits : List (Edit α)) : LabelMap α :=
  edits.foldl Edit.apply (.empty placement options)

/-! ### Requests and boxes belong together -/

/-- The requests have different numbers, the next number is not among them, and every box of a label
is that of a request. -/
structure Consistent (map : LabelMap α) : Prop where
  ids : (map.requests.map (·.id)).Nodup
  fresh : ∀ request ∈ map.requests, request.id < map.nextRequestId
  owners : ∀ entry ∈ map.workspace.index.labels,
    ∃ request ∈ map.requests, entry.owner = .label request.id

theorem featureObstacles_owner [Scalar α] {feature : Nat} {shape : Shape α}
    {symbol : Option (PointSymbol α)} {entries : List (Occupied α)}
    (hentries : featureObstacles feature shape symbol = .ok entries) :
    ∀ entry ∈ entries, entry.owner.feature? = some feature := by
  intro entry hmem
  cases shape with
  | point position =>
    cases symbol with
    | none =>
      obtain rfl := Except.ok.inj hentries
      rw [List.mem_singleton.mp hmem]
      rfl
    | some symbol =>
      cases hshape : symbol.shape with
      | error error =>
        simp [featureObstacles, hshape, bind, Except.bind] at hentries
      | ok shape =>
        simp only [featureObstacles, hshape, bind, Except.bind, pure, Except.pure,
          Except.ok.injEq] at hentries
        rw [← hentries, List.mem_singleton] at hmem
        rw [hmem]
        rfl
  | line points =>
    obtain rfl := Except.ok.inj hentries
    obtain ⟨edge, _, rfl⟩ := List.mem_map.mp hmem
    rfl
  | area polygon =>
    obtain rfl := Except.ok.inj hentries
    obtain ⟨edge, _, rfl⟩ := List.mem_map.mp hmem
    rfl

/-! ### Registering features -/

/-- An edit has registered the boxes of a feature, unless it had none or the feature was known, and
has left the boxes of labels alone. -/
structure Registered (before after : LabelMap α) (registration : Option (Nat × List (Occupied α))) :
    Prop where
  features : after.workspace.index.features = before.workspace.index.features ++
    (firstOfEach before.obstacles registration.toList).flatMap (·.2)
  obstacles : after.obstacles =
    (firstOfEach before.obstacles registration.toList).map (·.1) ++ before.obstacles

theorem registered_none (map : LabelMap α) : map.Registered map none :=
  ⟨(List.append_nil _).symm, rfl⟩

/-- What adding an obstacle comes to: nothing if the feature is known, and its boxes otherwise. -/
theorem addObstacle_cases [Scalar α] {map changed : LabelMap α} {feature : Nat}
    {shape : Shape α} {symbol : Option (PointSymbol α)}
    (hchanged : map.addObstacle feature shape symbol = .ok changed) :
    (feature ∈ map.obstacles ∧ changed = map) ∨
      ∃ entries, feature ∉ map.obstacles ∧ featureObstacles feature shape symbol = .ok entries ∧
        changed =
          { map with
              workspace := { map.workspace with index := map.workspace.index.insertAll entries }
              obstacles := feature :: map.obstacles } := by
  rw [addObstacle] at hchanged
  split at hchanged
  · rename_i hknown
    exact Or.inl ⟨by simpa using hknown, (Except.ok.inj hchanged).symm⟩
  · rename_i hknown
    cases hentries : featureObstacles feature shape symbol with
    | error error => simp [hentries, bind, Except.bind] at hchanged
    | ok entries =>
      simp only [hentries, bind, Except.bind, pure, Except.pure, Except.ok.injEq] at hchanged
      exact Or.inr ⟨entries, by simpa using hknown, rfl, hchanged.symm⟩

theorem registered_of_addObstacle [Scalar α] {map changed : LabelMap α} {feature : Nat}
    {shape : Shape α} {symbol : Option (PointSymbol α)}
    (hchanged : map.addObstacle feature shape symbol = .ok changed) :
    map.Registered changed
      ((featureObstacles feature shape symbol).toOption.map (feature, ·)) := by
  obtain ⟨hknown, rfl⟩ | ⟨entries, hnew, hentries, rfl⟩ := addObstacle_cases hchanged
  · cases (featureObstacles feature shape symbol).toOption with
    | none => exact changed.registered_none
    | some entries => constructor <;> simp [firstOfEach, hknown]
  · have hfeatures : entries.filter (fun entry => entry.owner.feature?.isSome) = entries := by
      refine List.filter_eq_self.mpr fun entry hmem => ?_
      rw [featureObstacles_owner hentries entry hmem]
      rfl
    constructor
    · simp [hentries, Except.toOption, firstOfEach, hnew, SpatialIndex.features,
        SpatialIndex.insertAll, hfeatures]
    · simp [hentries, Except.toOption, firstOfEach, hnew]

theorem toOption_of_addObstacle_error [Scalar α] {map : LabelMap α} {feature : Nat}
    {shape : Shape α} {symbol : Option (PointSymbol α)} {error : OutlineError}
    (herror : map.addObstacle feature shape symbol = .error error) :
    (featureObstacles feature shape symbol).toOption = none := by
  rw [addObstacle] at herror
  split at herror
  · cases herror
  · cases hentries : featureObstacles feature shape symbol with
    | error error => rfl
    | ok entries => simp [hentries, bind, Except.bind, pure, Except.pure] at herror

theorem frame_of_addObstacle [Scalar α] {map changed : LabelMap α} {feature : Nat}
    {shape : Shape α} {symbol : Option (PointSymbol α)}
    (hchanged : map.addObstacle feature shape symbol = .ok changed) :
    changed.requests = map.requests ∧ changed.nextRequestId = map.nextRequestId ∧
      changed.workspace.index.labels = map.workspace.index.labels := by
  obtain ⟨_, rfl⟩ | ⟨entries, _, hentries, rfl⟩ := addObstacle_cases hchanged
  · exact ⟨rfl, rfl, rfl⟩
  · refine ⟨rfl, rfl, ?_⟩
    have hlabels : entries.filter (fun entry => entry.owner.feature?.isNone) = [] := by
      refine List.filter_eq_nil_iff.mpr fun entry hmem => ?_
      rw [featureObstacles_owner hentries entry hmem]
      simp
    simp [SpatialIndex.labels, SpatialIndex.insertAll, hlabels]

theorem exists_of_addRequest [Scalar α] {map changed : LabelMap α} {make : Nat → Request α}
    (hchanged : map.addRequest make = .ok changed) :
    ∃ registered, map.addObstacle (make map.nextRequestId).feature (make map.nextRequestId).shape
        (make map.nextRequestId).symbol = .ok registered ∧
      changed =
        { registered with
            requests := registered.requests ++ [make map.nextRequestId]
            nextRequestId := registered.nextRequestId + 1 } := by
  rw [addRequest] at hchanged
  cases hregistered : map.addObstacle (make map.nextRequestId).feature
      (make map.nextRequestId).shape (make map.nextRequestId).symbol with
  | error error => simp [hregistered, bind, Except.bind] at hchanged
  | ok registered =>
    simp only [hregistered, bind, Except.bind, pure, Except.pure, Except.ok.injEq] at hchanged
    exact ⟨registered, rfl, hchanged.symm⟩

theorem addObstacle_error_of_addRequest [Scalar α] {map : LabelMap α} {make : Nat → Request α}
    {error : OutlineError} (herror : map.addRequest make = .error error) :
    map.addObstacle (make map.nextRequestId).feature (make map.nextRequestId).shape
      (make map.nextRequestId).symbol = .error error := by
  rw [addRequest] at herror
  cases hregistered : map.addObstacle (make map.nextRequestId).feature
      (make map.nextRequestId).shape (make map.nextRequestId).symbol with
  | error error => simpa [hregistered, bind, Except.bind] using herror
  | ok registered => simp [hregistered, bind, Except.bind, pure, Except.pure] at herror

/-! ### One edit -/

variable [Trigonometric α]

theorem registered_apply {map : LabelMap α} (hconsistent : map.Consistent) (edit : Edit α) :
    map.Registered (edit.apply map) (edit.registration? map) := by
  cases edit with
  | defineClass name sequence => exact ⟨(List.append_nil _).symm, rfl⟩
  | label conditions =>
    have hsame := sameOutline_labelUnder hconsistent.ids conditions
    exact ⟨hsame.features.trans (List.append_nil _).symm, hsame.obstacles⟩
  | addObstacle feature shape symbol =>
    rw [Edit.apply, Edit.registration?]
    cases hchanged : map.addObstacle feature shape symbol with
    | ok changed => exact registered_of_addObstacle hchanged
    | error error =>
      rw [toOption_of_addObstacle_error hchanged]
      exact map.registered_none
  | addRequest make =>
    rw [Edit.apply, Edit.registration?]
    cases hchanged : map.addRequest make with
    | ok changed =>
      obtain ⟨registered, hregistered, rfl⟩ := exists_of_addRequest hchanged
      have hobstacle := registered_of_addObstacle hregistered
      exact ⟨hobstacle.features, hobstacle.obstacles⟩
    | error error =>
      simp only [toOption_of_addObstacle_error (addObstacle_error_of_addRequest hchanged)]
      exact map.registered_none

omit [Trigonometric α] in
theorem Consistent.congr {map other : LabelMap α} (hconsistent : map.Consistent)
    (hrequests : other.requests = map.requests) (hnext : other.nextRequestId = map.nextRequestId)
    (hlabels : other.workspace.index.labels = map.workspace.index.labels) : other.Consistent := by
  constructor <;> simp only [hrequests, hnext, hlabels]
  · exact hconsistent.ids
  · exact hconsistent.fresh
  · exact hconsistent.owners

omit [Trigonometric α] in
theorem Consistent.append {map : LabelMap α} (hconsistent : map.Consistent) {request : Request α}
    (hid : request.id = map.nextRequestId) :
    Consistent { map with
      requests := map.requests ++ [request], nextRequestId := map.nextRequestId + 1 } := by
  constructor <;> simp only [List.mem_append, List.mem_singleton]
  · rw [List.map_append, List.map_singleton, hid, List.nodup_append]
    refine ⟨hconsistent.ids, List.nodup_singleton _, fun id hmem other hother hsame => ?_⟩
    obtain ⟨earlier, hearlier, rfl⟩ := List.mem_map.mp hmem
    have hless := hconsistent.fresh earlier hearlier
    rw [List.mem_singleton] at hother
    omega
  · rintro earlier (hold | rfl)
    · exact Nat.lt_succ_of_lt (hconsistent.fresh earlier hold)
    · omega
  · intro entry hmem
    obtain ⟨earlier, hearlier, howner⟩ := hconsistent.owners entry hmem
    exact ⟨earlier, Or.inl hearlier, howner⟩

theorem consistent_label {map : LabelMap α} (hconsistent : map.Consistent)
    (conditions : Conditions) : (map.labelUnder conditions).2.Consistent := by
  have hagree := recordsAgree_labelUnder hconsistent.ids hconsistent.owners conditions
  have hsame := sameOutline_labelUnder hconsistent.ids conditions
  refine ⟨hagree.ids, fun request hmem => ?_, hagree.owners⟩
  have hid : request.id ∈ map.requests.map (·.id) := by
    rw [← hsame.ids]
    exact List.mem_map_of_mem hmem
  obtain ⟨original, horiginal, hsameId⟩ := List.mem_map.mp hid
  rw [hsame.nextRequestId, ← hsameId]
  exact hconsistent.fresh original horiginal

theorem Consistent.apply {map : LabelMap α} (hconsistent : map.Consistent) {edit : Edit α}
    (huses : edit.UsesGivenId) : (edit.apply map).Consistent := by
  cases edit with
  | defineClass name sequence => exact hconsistent.congr rfl rfl rfl
  | addObstacle feature shape symbol =>
    rw [Edit.apply]
    cases hchanged : map.addObstacle feature shape symbol with
    | ok changed =>
      obtain ⟨hrequests, hnext, hlabels⟩ := frame_of_addObstacle hchanged
      exact hconsistent.congr hrequests hnext hlabels
    | error error => exact hconsistent
  | addRequest make =>
    rw [Edit.apply]
    cases hchanged : map.addRequest make with
    | ok changed =>
      obtain ⟨registered, hregistered, rfl⟩ := exists_of_addRequest hchanged
      obtain ⟨hrequests, hnext, hlabels⟩ := frame_of_addObstacle hregistered
      have hid : (make map.nextRequestId).id = registered.nextRequestId := by
        rw [hnext]
        exact huses _
      exact (hconsistent.congr hrequests hnext hlabels).append hid
    | error error => exact hconsistent
  | label conditions => exact consistent_label hconsistent conditions

/-- The records agree but for the requests added since the last labelling, which stand last. -/
def AgreesUpTo (map : LabelMap α) (recent : List (Request α)) : Prop :=
  ∃ labelled, map.requests = labelled ++ recent ∧
    RecordsAgree { map with requests := labelled }

omit [Trigonometric α] in
theorem RecordsAgree.congr {map other : LabelMap α} (hagree : map.RecordsAgree)
    (hrequests : other.requests = map.requests)
    (hlabels : other.workspace.index.labels = map.workspace.index.labels) :
    other.RecordsAgree := by
  refine ⟨⟨?_, ?_, ?_⟩, ?_⟩ <;> simp only [hrequests, hlabels]
  · exact hagree.ids
  · exact hagree.placed
  · exact hagree.leader
  · exact hagree.labels

theorem AgreesUpTo.apply {map : LabelMap α} {recent : List (Request α)}
    (hagree : map.AgreesUpTo recent) (hconsistent : map.Consistent) (edit : Edit α) :
    (edit.apply map).AgreesUpTo (edit.stillAdded recent ++ (edit.added? map).toList) := by
  obtain ⟨labelled, hrequests, hrecords⟩ := hagree
  cases edit with
  | defineClass name sequence =>
    simp only [Edit.stillAdded, Edit.added?, Option.toList_none, List.append_nil]
    exact ⟨labelled, hrequests, hrecords.congr rfl rfl⟩
  | addObstacle feature shape symbol =>
    simp only [Edit.apply, Edit.stillAdded, Edit.added?, Option.toList_none, List.append_nil]
    cases hchanged : map.addObstacle feature shape symbol with
    | ok changed =>
      obtain ⟨hsame, _, hlabels⟩ := frame_of_addObstacle hchanged
      exact ⟨labelled, hsame.trans hrequests, hrecords.congr rfl hlabels⟩
    | error error => exact ⟨labelled, hrequests, hrecords⟩
  | addRequest make =>
    simp only [Edit.apply, Edit.stillAdded, Edit.added?]
    cases hchanged : map.addRequest make with
    | ok changed =>
      obtain ⟨registered, hregistered, rfl⟩ := exists_of_addRequest hchanged
      obtain ⟨hsame, _, hlabels⟩ := frame_of_addObstacle hregistered
      refine ⟨labelled, ?_, hrecords.congr rfl hlabels⟩
      simp [hsame, hrequests, Except.toOption]
    | error error => exact ⟨labelled, by simpa [Except.toOption] using hrequests, hrecords⟩
  | label conditions =>
    exact ⟨_, (List.append_nil _).symm,
      recordsAgree_labelUnder hconsistent.ids hconsistent.owners conditions⟩

omit [Trigonometric α] in
/-- The records agree exactly if none of the requests added last claims to be placed: there are no
boxes on the map for these. -/
theorem AgreesUpTo.recordsAgree_iff {map : LabelMap α} {recent : List (Request α)}
    (hagree : map.AgreesUpTo recent) (hids : (map.requests.map (·.id)).Nodup) :
    map.RecordsAgree ↔
      ∀ request ∈ recent, request.placement = none ∧ request.status.isPlaced = false := by
  obtain ⟨labelled, hrequests, hrecords⟩ := hagree
  constructor
  · intro hwhole request hmem
    have hplacement : request.placement = none := by
      have hlength := (hrecords.labels.symm.trans hwhole.labels).length_eq
      rw [hrequests, List.filterMap_append, List.length_append, Nat.left_eq_add,
        List.length_eq_zero_iff, List.filterMap_eq_nil_iff] at hlength
      exact Option.map_eq_none_iff.mp (hlength request hmem)
    have hplaced := hwhole.placed request (by simp [hrequests, hmem])
    rw [hplacement] at hplaced
    exact ⟨hplacement, hplaced.symm⟩
  · intro hunplaced
    refine ⟨⟨hids, ?_, ?_⟩, ?_⟩ <;> simp only [hrequests, List.mem_append]
    · rintro request (hold | hnew)
      · exact hrecords.placed request hold
      · obtain ⟨hplacement, hstatus⟩ := hunplaced request hnew
        rw [hplacement, hstatus]
        rfl
    · rintro request (hold | hnew)
      · exact hrecords.leader request hold
      · simp [(hunplaced request hnew).1]
    · have hnone : recent.filterMap Request.entry? = [] := by
        refine List.filterMap_eq_nil_iff.mpr fun request hmem => ?_
        rw [Request.entry?, (hunplaced request hmem).1]
        rfl
      rw [List.filterMap_append, hnone, List.append_nil]
      exact hrecords.labels

/-! ### All edits -/

theorem consistent_empty (placement : PlacementOptions α) (options : LabelingOptions) :
    (empty placement options).Consistent where
  ids := List.nodup_nil
  fresh _ hmem := absurd hmem List.not_mem_nil
  owners _ hmem := absurd hmem List.not_mem_nil

theorem agreesUpTo_empty (placement : PlacementOptions α) (options : LabelingOptions) :
    (empty placement options).AgreesUpTo [] :=
  ⟨[], rfl,
    { ids := List.nodup_nil
      placed := fun _ hmem => absurd hmem List.not_mem_nil
      leader := fun _ hmem => absurd hmem List.not_mem_nil
      labels := .nil }⟩

theorem Consistent.foldl {map : LabelMap α} (hconsistent : map.Consistent)
    {edits : List (Edit α)} (huses : ∀ edit ∈ edits, edit.UsesGivenId) :
    (edits.foldl Edit.apply map).Consistent := by
  induction edits generalizing map with
  | nil => exact hconsistent
  | cons edit rest ih =>
    rw [List.forall_mem_cons] at huses
    exact ih (hconsistent.apply huses.1) huses.2

theorem AgreesUpTo.foldl {map : LabelMap α} {recent : List (Request α)}
    (hagree : map.AgreesUpTo recent) (hconsistent : map.Consistent) {edits : List (Edit α)}
    (huses : ∀ edit ∈ edits, edit.UsesGivenId) :
    (edits.foldl Edit.apply map).AgreesUpTo (addedSinceLabel map recent edits) := by
  induction edits generalizing map recent with
  | nil => exact hagree
  | cons edit rest ih =>
    rw [List.forall_mem_cons] at huses
    exact ih (hagree.apply hconsistent edit) (hconsistent.apply huses.1) huses.2

omit [Trigonometric α] in
theorem firstOfEach_toList_append {ι : Type} (seen : List Nat) (first : Option (Nat × ι))
    (rest : List (Nat × ι)) :
    firstOfEach seen (first.toList ++ rest) = firstOfEach seen first.toList ++
      firstOfEach ((firstOfEach seen first.toList).map (·.1) ++ seen) rest := by
  cases first with
  | none => rfl
  | some entry =>
    by_cases hseen : entry.1 ∈ seen <;> simp [firstOfEach, hseen]

theorem features_foldl {map : LabelMap α} (hconsistent : map.Consistent) {edits : List (Edit α)}
    (huses : ∀ edit ∈ edits, edit.UsesGivenId) :
    (edits.foldl Edit.apply map).workspace.index.features = map.workspace.index.features ++
      (firstOfEach map.obstacles (registrations map edits)).flatMap (·.2) := by
  induction edits generalizing map with
  | nil => exact (List.append_nil _).symm
  | cons edit rest ih =>
    rw [List.forall_mem_cons] at huses
    have hregistered := registered_apply hconsistent edit
    rw [List.foldl_cons, ih (hconsistent.apply huses.1) huses.2, hregistered.features,
      hregistered.obstacles, registrations, firstOfEach_toList_append, List.flatMap_append,
      List.append_assoc]

/-- **Maps as they are built.** Whatever has been done with a map, refused edits and labelling that
stopped early included, its boxes of features are those of the first registration of each feature.
That a request has a placement exactly if its state says so, that the placement has a leader line
exactly if the state says so, and that the boxes of labels are those of the placements, one for
each, holds exactly if no request was added since the last labelling that claimed to be placed. -/
theorem built_in_step (placement : PlacementOptions α) (options : LabelingOptions)
    (edits : List (Edit α)) (huses : ∀ edit ∈ edits, edit.UsesGivenId) :
    (built placement options edits).workspace.index.features =
        (firstOfEach [] (registrations (empty placement options) edits)).flatMap (·.2) ∧
      ((built placement options edits).RecordsAgree ↔
        ∀ request ∈ addedSinceLabel (empty placement options) [] edits,
          request.placement = none ∧ request.status.isPlaced = false) := by
  have hempty := consistent_empty placement options
  constructor
  · rw [built, features_foldl hempty huses]
    rfl
  · exact ((agreesUpTo_empty placement options).foldl hempty huses).recordsAgree_iff
      (hempty.foldl huses).ids

/-- A town that is labelled, and an obstacle that is added afterwards. -/
theorem labelled_town_in_step :
    let edits : List (Edit Float) :=
      [.defineClass "town" ⟨[⟨1, .failure .force⟩], 2⟩,
        .addRequest fun id => .create id 1 "town" (.point ⟨0, 0⟩) (.single "Bern") ⟨10, ⟨1, 1⟩⟩,
        .label ⟨fun _ => false, fun _ => 0⟩, .addObstacle 2 (.point ⟨5, 5⟩) none]
    (∀ edit ∈ edits, edit.UsesGivenId) ∧
      (built .standard {} edits).workspace.index.features =
        (firstOfEach [] (registrations (empty .standard {}) edits)).flatMap (·.2) ∧
      (built .standard {} edits).RecordsAgree := by
  intro edits
  have huses : ∀ edit ∈ edits, edit.UsesGivenId := by
    simp [edits, Edit.UsesGivenId, Request.create]
  obtain ⟨hfeatures, hrecords⟩ := built_in_step .standard {} edits huses
  have hadded : addedSinceLabel (empty .standard {}) [] edits = [] := by
    simp [edits, addedSinceLabel, Edit.stillAdded, Edit.added?]
  exact ⟨huses, hfeatures, hrecords.mpr (by simp [hadded])⟩

/-- A request that claims to be placed when it is added has no placement. -/
theorem claimed_not_in_step :
    let edits : List (Edit Float) :=
      [.addRequest fun id =>
        { Request.create id 1 "town" (.point ⟨0, 0⟩) (.single "Bern") ⟨10, ⟨1, 1⟩⟩ with
            status := .placed }]
    (∀ edit ∈ edits, edit.UsesGivenId) ∧
      ∃ request ∈ (built .standard {} edits).requests,
        request.status.isPlaced = true ∧ request.placement = none := by
  intro edits
  refine ⟨?_, ?_⟩
  · simp [edits, Edit.UsesGivenId, Request.create]
  · decide +kernel

end LabelMap

end LabelPlacement
