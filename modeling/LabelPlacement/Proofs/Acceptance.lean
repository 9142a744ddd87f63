import Mathlib.Data.Real.Basic
import LabelPlacement.Proofs.Building
import LabelPlacement.Proofs.Precedence
import LabelPlacement.Proofs.Targets

/-!
# Maps that are labelled without errors

A run that comes back fails for two reasons only: a loop lacks its target, or the symbol at the
request's point has no shape. The findings about a map tell the first, for all classes that have
requests. The second shows when the boxes of a feature are entered, but that is done once for each
feature: a request for a point that is known is added whatever its symbol. Where the symbols of such
requests have shapes (`LabelMap.Vetted`), findings and refusals together leave no error.
-/

namespace LabelPlacement

variable {α : Type}

/-! ### Usable symbols -/

/-- Entering the boxes of the request's feature looks at its symbol as placing its label does. -/
theorem Request.hasUsableSymbol_iff [Scalar α] (request : Request α) :
    request.HasUsableSymbol ↔ ∃ entries,
      featureObstacles request.feature request.shape request.symbol = .ok entries := by
  rw [HasUsableSymbol]
  cases request.shape with
  | line points => simp [featureObstacles]
  | area polygon => simp [featureObstacles]
  | point position =>
    cases request.symbol with
    | none => simp [featureObstacles]
    | some symbol =>
      cases hshape : symbol.shape <;>
        simp [featureObstacles, hshape, bind, Except.bind, pure, Except.pure]

theorem Request.hasUsableSymbol_reset [Scalar α] (request : Request α) :
    request.reset.HasUsableSymbol = request.HasUsableSymbol := by
  rw [reset_eq]
  rfl

namespace LabelMap

/-! ### Requests that can be carried out -/

/-- Nothing makes a run of the request by the sequence of its class fail. -/
def CanServe [Scalar α] (map : LabelMap α) (request : Request α) : Prop :=
  ∀ sequence, map.class? request.labelClass = some sequence → sequence.CanServe request

theorem canServe_reset [Scalar α] (map : LabelMap α) (request : Request α) :
    map.CanServe request.reset = map.CanServe request := by
  have hclass : request.reset.labelClass = request.labelClass := by rw [Request.reset_eq]; rfl
  have hserves (sequence : Sequence α) :
      sequence.CanServe request.reset = sequence.CanServe request :=
    propext ⟨fun hserves => ⟨hserves.targets, request.hasUsableSymbol_reset ▸ hserves.symbol⟩,
      fun hserves => ⟨hserves.targets, request.hasUsableSymbol_reset ▸ hserves.symbol⟩⟩
  simp only [CanServe, hclass, hserves]

/-- What does not depend on the working state holds of requests that were declared alike. -/
theorem forall_of_map_reset_eq {condition : Request α → Prop}
    (hreset : ∀ request, condition request.reset = condition request)
    {left right : List (Request α)} (hsame : left.map Request.reset = right.map Request.reset)
    (hleft : ∀ request ∈ left, condition request) : ∀ request ∈ right, condition request := by
  intro request hmem
  have hlisted : condition request ∈ left.map condition := by
    rw [map_eq_of_map_reset_eq hreset hsame]
    exact List.mem_map_of_mem hmem
  obtain ⟨original, horiginal, hcondition⟩ := List.mem_map.mp hlisted
  exact hcondition ▸ hleft original horiginal

/-- The findings about a map are about the class of every request, for the kind of its feature. -/
theorem mem_findings [Scalar α] {map : LabelMap α} {request : Request α}
    (hmem : request ∈ map.requests) {sequence : Sequence α}
    (hclass : map.class? request.labelClass = some sequence) {finding : Finding}
    (hfinding : finding ∈ sequence.findings request.shape.kind) :
    (request.labelClass, finding) ∈ map.findings := by
  have hdefined : (request.labelClass, sequence) ∈ map.classes := by
    obtain ⟨before, after, hclasses, -⟩ := List.lookup_eq_some_iff.mp hclass
    rw [hclasses]
    exact List.mem_append_right _ List.mem_cons_self
  have hserved : request.shape.kind ∈ FeatureKind.all.filter fun kind =>
      map.requests.any fun other =>
        other.labelClass == request.labelClass && other.shape.kind == kind := by
    refine List.mem_filter.mpr ⟨by cases request.shape.kind <;> simp [FeatureKind.all], ?_⟩
    have hsame : (request.shape.kind == request.shape.kind) = true := by
      cases request.shape.kind <;> rfl
    exact List.any_eq_true.mpr ⟨request, hmem, by simp [hsame]⟩
  refine List.mem_flatMap.mpr ⟨_, hdefined, List.mem_flatMap.mpr ⟨_, hserved, ?_⟩⟩
  exact List.mem_map_of_mem hfinding

theorem canServe_of_findings [Scalar α] {map : LabelMap α} {request : Request α}
    (hmem : request ∈ map.requests) (husable : request.HasUsableSymbol)
    (hfindings : ∀ found ∈ map.findings, found.2.concern.isAboutTarget = false) :
    map.CanServe request :=
  fun _ hclass => ⟨Sequence.not_lacksTarget_of_findings fun _ hfinding =>
    hfindings _ (mem_findings hmem hclass hfinding), husable⟩

/-- No run for a request of the map fails. -/
def ServesAll [Scalar α] (map : LabelMap α) : Prop :=
  ∀ request ∈ map.requests, map.CanServe request

/-- The requests as they were declared and the classes, which labelling leaves as they are. -/
structure SameDeclared (before after : LabelMap α) : Prop where
  requests : after.requests.map Request.reset = before.requests.map Request.reset
  class?_eq : after.class? = before.class?

theorem SameDeclared.trans {first second third : LabelMap α} (hleft : first.SameDeclared second)
    (hright : second.SameDeclared third) : first.SameDeclared third :=
  ⟨hright.requests.trans hleft.requests, hright.class?_eq.trans hleft.class?_eq⟩

theorem SameDeclared.servesAll [Scalar α] {before after : LabelMap α}
    (hsame : before.SameDeclared after) (hserves : before.ServesAll) : after.ServesAll := by
  intro request hmem
  have hbefore := forall_of_map_reset_eq before.canServe_reset hsame.requests.symm hserves
    request hmem
  exact fun sequence hclass => hbefore sequence (hsame.class?_eq ▸ hclass)

section
variable [Trigonometric α] {origin map : LabelMap α}

/-- What labelling the map can have been doing if it does not come back: for one of the requests, it
carried out a command of its class before the label was settled, or led a label that had been put
off to its place, which by itself ends in this way. -/
def BreaksOff (map : LabelMap α) (ending : Ending Unit (Outcome α)) (last : Performing α) : Prop :=
  ∃ request workspace, request.reset ∈ map.requests.map Request.reset ∧
    ((∃ sequence, map.class? request.labelClass = some sequence ∧
        sequence.BreaksOff (.start workspace request) ending last) ∨
      ∃ maxLength, last = .leading (.start workspace request) maxLength ∧
        last.command.ending last.run = ending)

/-- A condition on results, where only what is done for the requests of a map can fail to come
back. -/
abbrev MeetsUnlessBroken {ι : Type} (origin : LabelMap α) (holds : ι → Prop)
    (ending : Ending (Performing α) ι) : Prop :=
  ending.Meets holds (origin.BreaksOff (.crash ())) (origin.BreaksOff (.endless ()))

/-! ### Labelling without errors -/

theorem meets_placeRequestEnding (hsame : origin.SameDeclared map) {request : Request α}
    (hmem : request ∈ map.requests) :
    origin.MeetsUnlessBroken
      (fun turned => turned.2.1.reset = request.reset ∧ (map.CanServe request → turned.1 = false))
      (map.placeRequestEnding request) := by
  rw [placeRequestEnding]
  cases hclass : map.class? request.labelClass with
  | none => exact ⟨Request.reset_settle _ _ _, fun _ => rfl⟩
  | some sequence =>
    have hbroken (ending : Ending Unit (Outcome α)) (last : Performing α)
        (hlast : sequence.BreaksOff (.start map.workspace request) ending last) :
        origin.BreaksOff ending last := by
      refine ⟨request, map.workspace, ?_, Or.inl ⟨sequence, hsame.class?_eq ▸ hclass, hlast⟩⟩
      rw [← hsame.requests]
      exact List.mem_map_of_mem hmem
    have hmeets := (sequence.meets_ending (.start map.workspace request)).weaken
      (hbroken (.crash ())) (hbroken (.endless ()))
    refine (hmeets.imp ?_).map
    rintro ⟨error | settled, run⟩ ⟨hreset, hok⟩
    · refine ⟨hreset, fun hserves => ?_⟩
      obtain ⟨settled, hsettled⟩ := hok (hserves sequence hclass)
      cases hsettled
    · exact ⟨hreset, fun _ => rfl⟩

/-- **One turn.** -/
theorem meets_placeAtEnding (hsame : origin.SameDeclared map) (position : Nat) :
    origin.MeetsUnlessBroken
      (fun turned => origin.SameDeclared turned.2 ∧ (origin.ServesAll → turned.1 = false))
      (map.placeAtEnding position) := by
  rw [placeAtEnding]
  cases hfound : map.requests[position]? with
  | none => exact ⟨hsame, fun _ => rfl⟩
  | some request =>
    have hmem := List.mem_of_getElem? hfound
    refine ((meets_placeRequestEnding hsame hmem).imp ?_).map
    rintro ⟨failed, after, workspace⟩ ⟨hreset, hfailed⟩
    exact ⟨hsame.trans ⟨map_set_of_eq hfound hreset, rfl⟩, fun hserves =>
      hfailed (hsame.servesAll hserves request hmem)⟩

/-- **The main pass.** -/
theorem meets_placeAllEnding (hsame : origin.SameDeclared map) (conditions : Conditions)
    (turn : Nat) (positions : List Nat) :
    origin.MeetsUnlessBroken
      (fun final => origin.SameDeclared final.1 ∧ (origin.ServesAll → final.2.1 = 0))
      (map.placeAllEnding conditions turn positions) := by
  induction positions generalizing map turn with
  | nil => exact ⟨hsame, fun _ => rfl⟩
  | cons position rest ih =>
    rw [placeAllEnding]
    split
    · exact ⟨hsame, fun _ => rfl⟩
    · refine ((meets_placeAtEnding hsame position).imp ?_).andThen
      rintro ⟨failed, placed⟩ ⟨hplaced, hfailed⟩
      refine ((ih hplaced (turn + 1)).imp ?_).map
      rintro ⟨final, failures, stop⟩ ⟨hfinal, hfailures⟩
      refine ⟨hfinal, fun hserves => ?_⟩
      have hnone : failures = 0 := hfailures hserves
      have hfirst : failed = false := hfailed hserves
      simp [hnone, hfirst]

/-- Leading a label to its place comes back where the command to do so does. -/
theorem meets_leading {run : Run α} {maxLength : Option α} {crashes lasts : Performing α → Prop}
    (hcrash : (Command.leader ⟨.immediate, maxLength⟩).ending run = .crash () →
      crashes (.leading run maxLength))
    (hendless : (Command.leader ⟨.immediate, maxLength⟩).ending run = .endless () →
      lasts (.leading run maxLength)) :
    ((run.placeWithLeaderEnding maxLength .placedWithLeader).during
        (.leading run maxLength)).Meets
      (fun placed => placed.2.request.reset = run.request.reset) crashes lasts := by
  refine Ending.meets_during (fun placed hresult => ?_) (fun hled => hcrash ?_)
    fun hled => hendless ?_
  · obtain ⟨found, -, rfl⟩ := Ending.map_eq_result_iff.mp hresult
    cases found with
    | none => rfl
    | some place => exact Request.reset_settle _ _ _
  · simp only [Command.ending, LeaderPlacement.ending, hled]
    rfl
  · simp only [Command.ending, LeaderPlacement.ending, hled]
    rfl

/-- **One leader line.** -/
theorem meets_placeDeferredEnding (hsame : origin.SameDeclared map) (leader : DeferredLeader α) :
    origin.MeetsUnlessBroken origin.SameDeclared (map.placeDeferredEnding leader) := by
  rw [placeDeferredEnding]
  cases hrequest : map.request? leader.request with
  | none => exact hsame
  | some request =>
    have hbroken (ending : Ending Unit (Outcome α))
        (hended : (Command.leader ⟨.immediate, leader.maxLength⟩).ending
          (.start map.workspace request) = ending) :
        origin.BreaksOff ending (.leading (.start map.workspace request) leader.maxLength) := by
      refine ⟨request, map.workspace, ?_, Or.inr ⟨leader.maxLength, rfl, hended⟩⟩
      rw [← hsame.requests]
      exact List.mem_map_of_mem (List.mem_of_find?_eq_some hrequest)
    refine ((meets_leading (hbroken (.crash ())) (hbroken (.endless ()))).imp ?_).map
    rintro ⟨found, run⟩ hreset
    obtain ⟨position, hfound, -, hset⟩ := exists_modifyIn_eq_set hrequest
      fun _ => (if found then run else run.setStatus .suppressed).request
    refine hsame.trans ⟨?_, rfl⟩
    change (modifyIn _ _ _).map Request.reset = _
    rw [hset]
    refine map_set_of_eq hfound ?_
    cases found with
    | true => exact hreset
    | false => exact (Request.reset_settle _ _ _).trans hreset

theorem meets_placeEachDeferred (hsame : origin.SameDeclared map)
    (leaders : List (DeferredLeader α)) :
    origin.MeetsUnlessBroken origin.SameDeclared (map.placeEachDeferred leaders) := by
  induction leaders generalizing map with
  | nil => exact hsame
  | cons leader rest ih =>
    exact ((meets_placeDeferredEnding hsame leader).imp fun _ hplaced => ih hplaced).andThen

/-- **Labelling.** -/
theorem meets_labelEnding (map : LabelMap α) (conditions : Conditions) :
    map.MeetsUnlessBroken
      (fun labelled => map.SameDeclared labelled.2 ∧ (map.ServesAll → labelled.1.errors = 0))
      (map.labelEnding conditions) := by
  have hcleared : map.SameDeclared map.cleared := ⟨map.map_reset_cleared, rfl⟩
  rw [labelEnding]
  refine ((meets_placeAllEnding hcleared conditions 0 _).imp ?_).andThen
  rintro ⟨placed, errors, stop⟩ ⟨hplaced, herrors⟩
  have hreport (final : LabelMap α) (hfinal : map.SameDeclared final) :
      map.SameDeclared final ∧ (map.ServesAll → (final.report errors stop).errors = 0) :=
    ⟨hfinal, fun hserves => (outcome_foldl_tally _ _).2.1.trans (herrors hserves)⟩
  refine Ending.Meets.map (Ending.Meets.imp ?_ hreport)
  dsimp only
  split
  · have hwaiting : map.SameDeclared
        { placed with workspace := { placed.workspace with deferred := [] } } :=
      ⟨hplaced.requests, hplaced.class?_eq⟩
    exact meets_placeEachDeferred hwaiting _
  · exact hplaced

/-! ### Labelling keeps requests as they were declared -/

theorem map_reset_placeDeferred (map : LabelMap α) (leader : DeferredLeader α) :
    (map.placeDeferred leader).requests.map Request.reset = map.requests.map Request.reset := by
  cases hrequest : map.request? leader.request with
  | none => rw [placeDeferred, hrequest]
  | some request =>
    obtain ⟨position, run, hfound, -, hsettled, -, hmap⟩ := exists_settled_placeDeferred hrequest
    have hturned : Turned false map.workspace request run.workspace run.request :=
      hsettled.turned ⟨rfl, rfl⟩ (.refl run) fun _ => rfl
    rw [hmap]
    exact map_set_of_eq hfound hturned.reset_eq

theorem map_reset_foldl_placeDeferred (leaders : List (DeferredLeader α)) (map : LabelMap α) :
    (leaders.foldl placeDeferred map).requests.map Request.reset =
      map.requests.map Request.reset := by
  induction leaders generalizing map with
  | nil => rfl
  | cons leader rest ih => exact (ih _).trans (map.map_reset_placeDeferred leader)

theorem map_reset_label (conditions : Conditions) (map : LabelMap α) :
    (map.labelUnder conditions).2.requests.map Request.reset = map.requests.map Request.reset := by
  rw [labelUnder_eq]
  split
  · exact (map_reset_foldl_placeDeferred _ _).trans (map_reset_mainPass conditions map)
  · exact map_reset_mainPass conditions map

end

end LabelMap

/-! ### Maps whose symbols have been looked at -/

/-- If the feature of a request to be added is known, so that entering its boxes looks at nothing,
the symbol of the request is usable nevertheless. -/
def Edit.AddsUsable [Scalar α] (map : LabelMap α) : Edit α → Prop
  | addRequest make => (make map.nextRequestId).feature ∈ map.obstacles →
      (make map.nextRequestId).HasUsableSymbol
  | defineClass .. | addObstacle .. | label _ => True

namespace LabelMap

variable [Trigonometric α]

/-- The maps made from the empty one by edits that add usable symbols to known features, by
labelling that comes back, and by changes to requests that do not take a usable symbol away. -/
inductive Vetted : LabelMap α → Prop
  | empty (placement : PlacementOptions α) (options : LabelingOptions) :
      Vetted (.empty placement options)
  | edit {map : LabelMap α} (hmap : Vetted map) {edit : Edit α} (hadds : edit.AddsUsable map) :
      Vetted (edit.apply map)
  | labelled {map after : LabelMap α} (hmap : Vetted map) {conditions : Conditions}
      {summary : Summary} (hlabelled : map.labelEnding conditions = .result (summary, after)) :
      Vetted after
  | modify {map : LabelMap α} (hmap : Vetted map) (id : Nat) {change : Request α → Request α}
      (hkeeps : ∀ request : Request α, request.HasUsableSymbol →
        (change request).HasUsableSymbol) :
      Vetted (map.modifyRequest id change)

omit [Trigonometric α] in
theorem forall_mem_modifyIn {condition : Request α → Prop} {change : Request α → Request α}
    (hkeeps : ∀ request, condition request → condition (change request)) (id : Nat)
    {requests : List (Request α)} (hall : ∀ request ∈ requests, condition request) :
    ∀ request ∈ modifyIn id change requests, condition request := by
  induction requests with
  | nil => exact hall
  | cons first rest ih =>
    obtain ⟨hfirst, hrest⟩ := List.forall_mem_cons.mp hall
    rw [modifyIn]
    split
    · exact List.forall_mem_cons.mpr ⟨hkeeps first hfirst, hrest⟩
    · exact List.forall_mem_cons.mpr ⟨hfirst, ih hrest⟩

theorem usable_of_addRequest {map changed : LabelMap α} {make : Nat → Request α}
    (hadds : (Edit.addRequest make).AddsUsable map) (hchanged : map.addRequest make = .ok changed)
    (husable : ∀ request ∈ map.requests, request.HasUsableSymbol) :
    ∀ request ∈ changed.requests, request.HasUsableSymbol := by
  obtain ⟨registered, hregistered, rfl⟩ := exists_of_addRequest hchanged
  obtain ⟨hrequests, -, -⟩ := frame_of_addObstacle hregistered
  intro request hmem
  rw [List.mem_append, List.mem_singleton, hrequests] at hmem
  obtain hold | rfl := hmem
  · exact husable request hold
  · -- Either the feature was known, or entering its boxes has looked at the symbol.
    obtain ⟨hknown, -⟩ | ⟨entries, -, hentries, -⟩ := addObstacle_cases hregistered
    · exact hadds hknown
    · exact (Request.hasUsableSymbol_iff _).mpr ⟨entries, hentries⟩

theorem usable_apply {map : LabelMap α} {edit : Edit α} (hadds : edit.AddsUsable map)
    (husable : ∀ request ∈ map.requests, request.HasUsableSymbol) :
    ∀ request ∈ (edit.apply map).requests, request.HasUsableSymbol := by
  cases edit with
  | defineClass name sequence => exact husable
  | addObstacle feature shape symbol =>
    rw [Edit.apply]
    cases hchanged : map.addObstacle feature shape symbol with
    | ok changed =>
      obtain ⟨hrequests, -, -⟩ := frame_of_addObstacle hchanged
      exact hrequests ▸ husable
    | error error => exact husable
  | addRequest make =>
    rw [Edit.apply]
    cases hchanged : map.addRequest make with
    | ok changed => exact usable_of_addRequest hadds hchanged husable
    | error error => exact husable
  | label conditions =>
    exact forall_of_map_reset_eq Request.hasUsableSymbol_reset (map_reset_label conditions map).symm
      husable

theorem Vetted.usable {map : LabelMap α} (hvetted : map.Vetted) :
    ∀ request ∈ map.requests, request.HasUsableSymbol := by
  induction hvetted with
  | empty placement options => exact fun _ hmem => absurd hmem List.not_mem_nil
  | edit _ hadds ih => exact usable_apply hadds ih
  | @labelled map _ _ conditions _ hlabelled ih =>
    have hsame := ((map.meets_labelEnding conditions).of_result hlabelled).1
    exact forall_of_map_reset_eq Request.hasUsableSymbol_reset hsame.requests.symm ih
  | modify _ id hkeeps ih => exact forall_mem_modifyIn hkeeps id ih

/-- **No errors.** If the symbols that nothing has looked at are usable, and there is no finding
about a target, labelling counts no error when it comes back, and neither does any run for a request
fail, whatever stands on the map. It comes back unless one of the commands that it carries out
crashes or goes on for ever, which with exact numbers none does. -/
theorem Vetted.labels_without_errors {map : LabelMap α} (hvetted : map.Vetted)
    (hfindings : ∀ found ∈ map.findings, found.2.concern.isAboutTarget = false) :
    (∀ conditions, (map.labelEnding conditions).Meets (fun labelled => labelled.1.errors = 0)
      (map.BreaksOff (.crash ())) (map.BreaksOff (.endless ()))) ∧
    (∀ request ∈ map.requests, ∀ sequence, map.class? request.labelClass = some sequence →
      ∀ workspace, (sequence.ending (.start workspace request)).Meets
        (fun outcome => ∃ settled, outcome.1 = .ok settled)
        (sequence.BreaksOff (.start workspace request) (.crash ()))
        (sequence.BreaksOff (.start workspace request) (.endless ()))) ∧
    ∀ (exact : LabelMap ℝ) conditions, ∃ labelled,
      exact.labelEnding conditions = .result labelled := by
  have hserves : map.ServesAll := fun request hmem =>
    canServe_of_findings hmem (hvetted.usable request hmem) hfindings
  refine ⟨fun conditions => ?_, fun request hmem sequence hclass workspace => ?_, ?_⟩
  · exact (map.meets_labelEnding conditions).imp fun _ hlabelled => hlabelled.2 hserves
  · exact (sequence.meets_ending _).imp fun _ hended =>
      hended.2 (hserves request hmem sequence hclass)
  · exact fun exact conditions => ⟨_, exact.labelEnding_eq conditions⟩

/-- A town that is labelled twice, the second time around a symbol. -/
theorem town_with_late_symbol_has_no_errors :
    let sequence : Sequence ℝ :=
      ⟨[⟨1, .point ⟨[.north, .east], 0⟩⟩, ⟨2, .failure .forceWithLeader⟩], 3⟩
    let plain : Nat → Request ℝ := fun id =>
      .create id 1 "town" (.point ⟨0, 0⟩) (.single "Bern") ⟨10, ⟨1, 1⟩⟩
    let symbol : PointSymbol ℝ :=
      { outline := [.ofVertices [⟨-1, -1⟩, ⟨1, -1⟩, ⟨0, 1⟩]], cache := none }
    let first : Edit ℝ := .addRequest plain
    let second : Edit ℝ := .addRequest fun id => { plain id with symbol := some symbol }
    let map := built .standard {} [.defineClass "town" sequence, first, second]
    map.requests.length = 2 ∧ map.Vetted ∧
      (∀ found ∈ map.findings, found.2.concern.isAboutTarget = false) ∧
      ∃ labelled, map.labelEnding map.conditions = .result labelled ∧ labelled.1.errors = 0 := by
  intro sequence plain symbol first second map
  have hclass : (Edit.defineClass "town" sequence).AddsUsable (.empty .standard {}) := trivial
  have hfirst : first.AddsUsable (built .standard {} [.defineClass "town" sequence]) :=
    fun hknown => absurd hknown List.not_mem_nil
  have hsecond : second.AddsUsable (built .standard {} [.defineClass "town" sequence, first]) := by
    intro _ point found _ hfound
    obtain rfl := Option.some.inj hfound
    exact ⟨_, rfl⟩
  have hvetted : map.Vetted := (((Vetted.empty .standard {}).edit hclass).edit hfirst).edit hsecond
  have hnone : map.findings = [] := rfl
  have hfindings : ∀ found ∈ map.findings, found.2.concern.isAboutTarget = false := by
    simp [hnone]
  obtain ⟨herrors, -, hback⟩ := hvetted.labels_without_errors hfindings
  obtain ⟨labelled, hlabelled⟩ := hback map map.conditions
  exact ⟨rfl, hvetted, hfindings, labelled, hlabelled,
    (herrors map.conditions).of_result hlabelled⟩

/-- Both requests for a town are added, nothing is found about their sequence, and the second one
fails: its symbol has no outline, which nothing has looked at since the town was known. Neither is
anything found about a placement between two undefined positions, with which labelling crashes. -/
theorem second_symbol_goes_unseen :
    let sequence : Sequence Rat := ⟨[⟨1, .point ⟨[.north, .east], 0⟩⟩], 2⟩
    let plain : Nat → Request Rat := fun id =>
      .create id 1 "town" (.point ⟨0, 0⟩) (.single "Bern") ⟨10, ⟨1, 1⟩⟩
    let map := built .standard {} [.defineClass "town" sequence, .addRequest plain,
      .addRequest fun id => { plain id with symbol := some .blank }]
    let unbounded : LinePlacement Float :=
      ⟨.middle, ⟨50, .percent⟩, ⟨0 / 0, .absolute⟩, ⟨0 / 0, .absolute⟩⟩
    let roads := built .standard {} [.defineClass "road" ⟨[⟨1, .line unbounded⟩], 2⟩,
      .addRequest fun id =>
        .create id 1 "road" (.line [⟨0, 0⟩, ⟨20, 0⟩]) (.single "Ab") ⟨10, ⟨1, 1⟩⟩]
    (map.requests.length = 2 ∧ map.findings = [] ∧ map.label.1.errors = 1) ∧
      roads.requests.length = 1 ∧ roads.findings = [] ∧
        ∃ last, roads.labelEnding roads.conditions = .crash last := by
  intro sequence plain map unbounded roads
  have horder : order map.cleared.requests = [0, 1] := order_of_pairwise (by decide +kernel)
  refine ⟨⟨by decide +kernel, by decide +kernel, ?_⟩, by decide +kernel, by decide +kernel, ?_⟩
  · simp only [label, LabelMap.labelUnder, horder]
    decide +kernel
  · have hroad : order roads.cleared.requests = [0] := order_of_pairwise (by decide +kernel)
    obtain ⟨request, hrequest, hclass, hshape⟩ : ∃ request,
        roads.cleared.requests[0]? = some request ∧
        roads.cleared.class? request.labelClass = some ⟨[⟨1, .line unbounded⟩], 2⟩ ∧
        request.shape = .line [⟨0, 0⟩, ⟨20, 0⟩] := ⟨_, rfl, rfl, rfl⟩
    have hturn : ∃ last, roads.cleared.placeAtEnding 0 = .crash last := by
      simp only [placeAtEnding, hrequest, placeRequestEnding, hclass]
      rw [Sequence.ending_eq_crash rfl rfl]
      · exact ⟨_, rfl⟩
      · rw [Command.ending, LinePlacement.ending_eq_crash hshape (by decide +kernel)
          (by decide +kernel)]
        rfl
    obtain ⟨last, hturn⟩ := hturn
    simp only [labelEnding, hroad, placeAllEnding, hturn]
    exact ⟨last, rfl⟩

end LabelMap

end LabelPlacement
