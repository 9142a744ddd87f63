import LabelPlacement.Proofs.Passes

/-!
# The numbers of a labelling

The summary of a labelling counts the states of the requests, and the list of leaders put off tells
apart those that still wait. The main pass enters a request at the end of the list as it puts it off
and never again (`LabelMap.Listed`), and the second pass takes every one of them from its state
(`LabelMap.Covered`), so that state and list agree at the end. A request that fails is left as it
was, and no turn comes back to it.
-/

namespace LabelPlacement

variable {α : Type}

/-! ### Counting states -/

/-- The number of requests counted. -/
def Summary.counted (summary : Summary) : Nat :=
  summary.placed + summary.placedWithLeader + summary.forced + summary.suppressed +
    summary.deferred + summary.unplaced

theorem Summary.counted_tally (summary : Summary) (status : Status) :
    (summary.tally status).counted = summary.counted + 1 := by
  cases status <;> simp only [tally, counted] <;> omega

theorem Summary.unplaced_tally (summary : Summary) (status : Status) :
    (summary.tally status).unplaced =
      summary.unplaced + if status = .unplaced then 1 else 0 := by
  cases status <;> rfl

theorem counted_foldl_tally (requests : List (Request α)) (summary : Summary) :
    (requests.foldl (fun summary request => summary.tally request.status) summary).counted =
      summary.counted + requests.length := by
  induction requests generalizing summary with
  | nil => rfl
  | cons request rest ih =>
    rw [List.foldl_cons, ih, Summary.counted_tally, List.length_cons]
    omega

theorem unplaced_foldl_tally (requests : List (Request α)) (summary : Summary) :
    (requests.foldl (fun summary request => summary.tally request.status) summary).unplaced =
      summary.unplaced + requests.countP (·.status = .unplaced) := by
  induction requests generalizing summary with
  | nil => rfl
  | cons request rest ih =>
    rw [List.foldl_cons, ih, Summary.unplaced_tally, List.countP_cons]
    simp only [decide_eq_true_eq]
    omega

/-! ### Requests that wait for their leaders -/

theorem Turned.map_request_deferred [Scalar α] {mayCross : Bool}
    {workspace newWorkspace : Workspace α} {request after : Request α}
    (hturned : Turned mayCross workspace request newWorkspace after)
    (hstatus : request.status = .unplaced)
    (hother : ∀ leader ∈ workspace.deferred, leader.request ≠ request.id) :
    newWorkspace.deferred.map (·.request) = workspace.deferred.map (·.request) ++
      if after.status = .leaderDeferred then [after.id] else [] := by
  have hid := hturned.id_eq
  cases hturned with
  | unsettled _ hkept => simp [hkept, hstatus]
  | placed _ placement _ hplaced =>
    have hnot : after.status ≠ .leaderDeferred := by
      intro hdeferred
      rw [hdeferred] at hplaced
      cases hplaced
    simp [hnot]
  | deferred _ hafter _ maxLength =>
    have hkept : workspace.deferred.filter (·.request != request.id) = workspace.deferred :=
      List.filter_eq_self.mpr fun leader hleader => bne_iff_ne.mpr (hother leader hleader)
    rw [Workspace.deferLeader, hkept, List.map_append, List.map_singleton, if_pos hafter, hid]
  | suppressed _ hafter => simp [hafter]

namespace LabelMap

/-- The numbers of the requests at some positions that wait for their leaders. -/
def waiting (map : LabelMap α) (positions : List Nat) : List Nat :=
  ((positions.filterMap (map.requests[·]?)).filter (·.status = .leaderDeferred)).map (·.id)

theorem waiting_congr {left right : LabelMap α} {positions : List Nat}
    (hsame : ∀ position ∈ positions, left.requests[position]? = right.requests[position]?) :
    left.waiting positions = right.waiting positions := by
  rw [waiting, waiting, List.filterMap_congr hsame]

theorem waiting_append (map : LabelMap α) (first second : List Nat) :
    map.waiting (first ++ second) = map.waiting first ++ map.waiting second := by
  rw [waiting, List.filterMap_append, List.filter_append, List.map_append]
  rfl

/-- The list of leaders put off tells which requests have been put off, in the order of turns. -/
def Listed (positions : List Nat) (map : LabelMap α) : Prop :=
  map.workspace.deferred.map (·.request) = map.waiting positions

variable [Trigonometric α]

/-! ### Failures -/

theorem status_placeRequest_of_failed {map : LabelMap α} {request : Request α}
    (hfailed : (map.placeRequest request).1 = true) :
    (map.placeRequest request).2.1.status = request.status := by
  rw [placeRequest] at hfailed ⊢
  cases hclass : map.class? request.labelClass with
  | none =>
    rw [hclass] at hfailed
    cases hfailed
  | some sequence =>
    have hreaches := (sequence.maintains_unsettled (.start map.workspace request)).reaches_execute
      ⟨rfl, rfl⟩
    rw [hclass] at hfailed
    simp only at hfailed ⊢
    generalize sequence.execute (.start map.workspace request) = outcome at hreaches hfailed ⊢
    obtain ⟨result, run⟩ := outcome
    cases result with
    | ok settled => cases hfailed
    | error error =>
      have hunsettled := hreaches.inv_of_unsettled (by simp)
      exact (congrArg Request.status hunsettled.declared :)

/-- A turn that fails leaves its request in its state. -/
theorem exists_of_placeAt_failed {map : LabelMap α} {position : Nat}
    (hfailed : (map.placeAt position).1 = true) :
    ∃ request after, map.requests[position]? = some request ∧
      (map.placeAt position).2.requests[position]? = some after ∧ after.id = request.id ∧
      after.status = request.status := by
  cases hfound : map.requests[position]? with
  | none =>
    rw [placeAt, hfound] at hfailed
    cases hfailed
  | some request =>
    have hposition := (List.getElem?_eq_some_iff.mp hfound).1
    have hfails : (map.placeRequest request).1 = true := by rwa [placeAt, hfound] at hfailed
    refine ⟨request, (map.placeRequest request).2.1, rfl, ?_,
      (map.turned_placeRequest request).id_eq, status_placeRequest_of_failed hfails⟩
    rw [placeAt_eq hfound, List.getElem?_set_self hposition]

/-- The requests that fail are different ones. -/
theorem failures_sublist (map : LabelMap α) (positions : List Nat) :
    (map.failures positions).Sublist
      (positions.filterMap ((map.requests.map (·.id))[·]?)) := by
  induction positions generalizing map with
  | nil => exact List.Sublist.refl _
  | cons position rest ih =>
    have hrest := ih (map.placeAt position).2
    rw [map_id_eq_of_map_reset_eq (map.map_reset_placeAt position)] at hrest
    rw [failures, List.filterMap_cons, List.getElem?_map]
    cases map.requests[position]? with
    | none => by_cases hfailed : (map.placeAt position).1 <;> simpa [hfailed] using hrest
    | some request =>
      by_cases hfailed : (map.placeAt position).1
      · simpa [hfailed] using hrest
      · simpa [hfailed] using hrest.cons request.id

/-- **Failures leave their requests unplaced.** -/
theorem exists_of_mem_failures {positions rest : List Nat} {map : LabelMap α}
    (hready : Ready (positions ++ rest) map) :
    ∀ id ∈ map.failures positions, ∃ request,
      (map.afterTurns positions).request? id = some request ∧ request.status = .unplaced := by
  induction positions generalizing map with
  | nil => exact fun id hmem => absurd hmem List.not_mem_nil
  | cons position later ih =>
    intro id hmem
    rw [failures, List.mem_append] at hmem
    rcases hmem with hfirst | hlater
    · by_cases hfailed : (map.placeAt position).1 = true
      · obtain ⟨request, after, hfound, hafter, hid, hstatus⟩ := exists_of_placeAt_failed hfailed
        obtain rfl : id = request.id := by simpa [hfailed, hfound] using hfirst
        have hnotMem : position ∉ later := fun hmem =>
          (List.nodup_cons.mp hready.nodup).1 (List.mem_append_left _ hmem)
        have hkept : (map.afterTurns (position :: later)).requests[position]? = some after :=
          (getElem?_afterTurns_of_notMem hnotMem).trans hafter
        refine ⟨after, (request?_eq_some_iff hready.afterTurns.ids).mpr
          ⟨List.mem_of_getElem? hkept, hid⟩, ?_⟩
        rw [hstatus]
        exact (hready.fresh position List.mem_cons_self request hfound).1
      · simp [hfailed] at hfirst
    · exact ih hready.placeAt.2 id hlater

/-! ### The leaders that are put off -/

/-- **One turn.** -/
theorem Listed.placeAt {done rest : List Nat} {position : Nat} {map : LabelMap α}
    (hlisted : Listed done map) (hready : Ready (position :: rest) map) (hnew : position ∉ done) :
    Listed (done ++ [position]) (map.placeAt position).2 := by
  have hdone : (map.placeAt position).2.waiting done = map.waiting done :=
    waiting_congr fun other hmem => getElem?_placeAt_of_ne fun hsame => hnew (hsame ▸ hmem)
  rw [Listed, waiting_append, hdone, ← hlisted]
  cases hfound : map.requests[position]? with
  | none => simp [placeAt_of_none hfound, waiting, hfound]
  | some request =>
    have hposition := (List.getElem?_eq_some_iff.mp hfound).1
    rw [placeAt_eq hfound]
    refine ((map.turned_placeRequest request).map_request_deferred
      (hready.fresh position List.mem_cons_self request hfound).1
      (hready.ne_of_mem_deferred hfound)).trans (congrArg _ ?_)
    simp only [waiting, List.filterMap_cons, List.filterMap_nil, List.getElem?_set_self hposition,
      List.filter_cons, List.filter_nil, decide_eq_true_eq]
    split <;> rfl

/-- **Any number of turns.** -/
theorem Listed.afterTurns {done positions rest : List Nat} {map : LabelMap α}
    (hlisted : Listed done map) (hready : Ready (positions ++ rest) map)
    (hnodup : (done ++ positions).Nodup) :
    Listed (done ++ positions) (map.afterTurns positions) := by
  induction positions generalizing done map with
  | nil => rwa [List.append_nil]
  | cons position later ih =>
    have hnew : position ∉ done := fun hmem =>
      List.disjoint_of_nodup_append hnodup hmem List.mem_cons_self
    rw [List.append_cons] at hnodup ⊢
    exact ih (hlisted.placeAt hready hnew) hready.placeAt.2 hnodup

/-- The list after a main pass that nothing has stopped. -/
theorem deferred_mainPass {map : LabelMap α} (hids : (map.requests.map (·.id)).Nodup)
    {conditions : Conditions} (hstop : (plan conditions map).2 = none) :
    (mainPass conditions map).workspace.deferred.map (·.request) =
      ((mainPass conditions map).inTurn.filter (·.status = .leaderDeferred)).map (·.id) := by
  have hready := ready_cleared hids
  rw [order_cleared, ← List.append_nil (order map.requests)] at hready
  have hlisted : Listed [] map.cleared := rfl
  rw [inTurn, order_eq_of_map_reset_eq (map_reset_mainPass conditions map), mainPass_eq,
    plan, schedule_of_not_stopped hstop]
  exact hlisted.afterTurns hready (nodup_order map.requests)

/-! ### The turns of the leaders that were put off -/

/-- Every request that waits has a leader among those that still have their turns. -/
def Covered (leaders : List (DeferredLeader α)) (map : LabelMap α) : Prop :=
  ∀ request ∈ map.requests, request.status = .leaderDeferred →
    ∃ leader ∈ leaders, leader.request = request.id

/-- **One leader.** -/
theorem Covered.placeDeferred {leader : DeferredLeader α} {rest : List (DeferredLeader α)}
    {map : LabelMap α} (hcovered : Covered (leader :: rest) map)
    (hids : (map.requests.map (·.id)).Nodup) : Covered rest (map.placeDeferred leader) := by
  intro other hmem hstatus
  cases hrequest : map.request? leader.request with
  | none =>
    rw [LabelMap.placeDeferred, hrequest] at hmem
    obtain ⟨waiting, hwaiting, howner⟩ := hcovered other hmem hstatus
    rcases List.mem_cons.mp hwaiting with rfl | hlater
    · have hfound := (request?_eq_some_iff hids).mpr ⟨hmem, howner.symm⟩
      rw [hrequest] at hfound
      cases hfound
    · exact ⟨waiting, hlater, howner⟩
  | some request =>
    obtain ⟨position, run, hfound, hid, hsettled, hdone, hmap⟩ :=
      exists_settled_placeDeferred hrequest
    have hturned : Turned false map.workspace request run.workspace run.request :=
      hsettled.turned ⟨rfl, rfl⟩ (.refl run) fun _ => rfl
    rw [hmap] at hmem
    rcases eq_or_mem_of_mem_set hids hfound hturned.id_eq hmem with rfl | ⟨hold, hother⟩
    · exact absurd hstatus hdone
    · obtain ⟨waiting, hwaiting, howner⟩ := hcovered other hold hstatus
      rcases List.mem_cons.mp hwaiting with rfl | hlater
      · exact absurd (howner.symm.trans hid.symm) hother
      · exact ⟨waiting, hlater, howner⟩

/-- **All leaders.** -/
theorem DeferredReady.covered {leaders : List (DeferredLeader α)} {map : LabelMap α}
    (hready : DeferredReady leaders map) (hcovered : Covered leaders map) :
    Covered [] (leaders.foldl LabelMap.placeDeferred map) := by
  induction leaders generalizing map with
  | nil => exact hcovered
  | cons leader rest ih => exact ih hready.placeDeferred.2 (hcovered.placeDeferred hready.ids)

theorem deferred_foldl_placeDeferred (leaders : List (DeferredLeader α)) (map : LabelMap α) :
    (leaders.foldl placeDeferred map).workspace.deferred = map.workspace.deferred := by
  induction leaders generalizing map with
  | nil => rfl
  | cons leader rest ih => exact (ih _).trans (map.deferred_placeDeferred leader)

/-! ### The summary and the list -/

theorem map_reset_labelUnder {map : LabelMap α} (hids : (map.requests.map (·.id)).Nodup)
    (conditions : Conditions) :
    (map.labelUnder conditions).2.requests.map Request.reset = map.requests.map Request.reset :=
  (Request.forall₂_sameDeclaration_iff.mp (alike_labelUnder hids conditions).requests).symm

theorem counted_labelUnder {map : LabelMap α} (hids : (map.requests.map (·.id)).Nodup)
    (conditions : Conditions) : (map.labelUnder conditions).1.counted = map.requests.length := by
  have hlength := congrArg List.length (map_reset_labelUnder hids conditions)
  rw [List.length_map, List.length_map] at hlength
  rw [summary_labelUnder conditions hids, counted_foldl_tally, hlength]
  exact Nat.zero_add _

theorem exists_unplaced_of_failed {map : LabelMap α} (hids : (map.requests.map (·.id)).Nodup)
    (conditions : Conditions) :
    ∀ id ∈ map.cleared.failures (plan conditions map).1, ∃ request,
      (map.labelUnder conditions).2.request? id = some request ∧ request.status = .unplaced := by
  intro id hmem
  obtain ⟨rest, hrest⟩ := exists_schedule_append conditions map.options 0 (order map.requests)
  have hready := ready_cleared hids
  rw [order_cleared, hrest] at hready
  obtain ⟨request, hfound, hstatus⟩ := exists_of_mem_failures hready id hmem
  rw [← plan, ← mainPass_eq] at hfound
  exact ⟨request, request?_labelUnder hids hfound (by rw [hstatus]; nofun), hstatus⟩

theorem nodup_failures {map : LabelMap α} (hids : (map.requests.map (·.id)).Nodup)
    (conditions : Conditions) : (map.cleared.failures (plan conditions map).1).Nodup := by
  obtain ⟨rest, hrest⟩ := exists_schedule_append conditions map.options 0 (order map.requests)
  have hplan : (plan conditions map).1.Sublist (order map.requests) := by
    rw [hrest]
    exact List.sublist_append_left _ _
  have hnumbers : (order map.requests).filterMap ((map.requests.map (·.id))[·]?) =
      map.inTurn.map (·.id) := by
    rw [inTurn, List.map_filterMap]
    exact List.filterMap_congr fun position _ => List.getElem?_map
  have hall := (failures_sublist map.cleared (plan conditions map).1).trans (hplan.filterMap _)
  rw [map_id_cleared, hnumbers] at hall
  exact ((map.perm_inTurn.map _).nodup_iff.mpr hids).sublist hall

theorem errors_le_unplaced {map : LabelMap α} (hids : (map.requests.map (·.id)).Nodup)
    (conditions : Conditions) :
    (map.labelUnder conditions).1.errors ≤ (map.labelUnder conditions).1.unplaced := by
  set final := (map.labelUnder conditions).2 with hfinal
  set unplaced := final.requests.filter (·.status = .unplaced)
  have hsubset : map.cleared.failures (plan conditions map).1 ⊆ unplaced.map (·.id) := by
    intro id hmem
    obtain ⟨request, hfound, hstatus⟩ := exists_unplaced_of_failed hids conditions id hmem
    have hids' : (final.requests.map (·.id)).Nodup := by
      rwa [map_id_eq_of_map_reset_eq (map_reset_labelUnder hids conditions)]
    obtain ⟨hrequest, hid⟩ := (request?_eq_some_iff hids').mp hfound
    exact List.mem_map.mpr ⟨request, List.mem_filter.mpr ⟨hrequest, by simpa using hstatus⟩, hid⟩
  calc (map.labelUnder conditions).1.errors
      = (map.cleared.failures (plan conditions map).1).length := by
        rw [summary_labelUnder conditions hids, (outcome_foldl_tally _ _).2.1]
        rfl
    _ ≤ (unplaced.map (·.id)).length :=
        (List.subperm_of_subset (nodup_failures hids conditions) hsubset).length_le
    _ = final.requests.countP (·.status = .unplaced) := by
        rw [List.length_map, List.countP_eq_length_filter]
    _ = (map.labelUnder conditions).1.unplaced := by
        rw [summary_labelUnder conditions hids, unplaced_foldl_tally]
        exact (Nat.zero_add _).symm

theorem plan_of_not_stopped {map : LabelMap α} (hids : (map.requests.map (·.id)).Nodup)
    {conditions : Conditions} (hinterrupted : (map.labelUnder conditions).1.interrupted = false)
    (htimedOut : (map.labelUnder conditions).1.timedOut = false) :
    (plan conditions map).2 = none := by
  rw [summary_labelUnder conditions hids] at hinterrupted htimedOut
  rw [(outcome_foldl_tally _ _).2.2.1] at hinterrupted
  rw [(outcome_foldl_tally _ _).2.2.2] at htimedOut
  cases hstop : (plan conditions map).2 with
  | none => rfl
  | some stop =>
    cases stop with
    | interrupted => simp [outcome, hstop] at hinterrupted
    | timedOut => simp [outcome, hstop] at htimedOut

/-- Where leaders that were put off have their turns, no request waits in the end. -/
theorem none_waits {map : LabelMap α} (hids : (map.requests.map (·.id)).Nodup)
    {conditions : Conditions} (hstop : (plan conditions map).2 = none)
    (hon : map.options.placesDeferredLeaders = true) :
    (∀ request ∈ (map.labelUnder conditions).2.requests, request.status ≠ .leaderDeferred) ∧
      (map.labelUnder conditions).2.workspace.deferred = [] := by
  obtain ⟨rest, hready⟩ := ready_mainPass hids conditions
  have hfinal : (map.labelUnder conditions).2 = (mainPass conditions map).placeDeferredLeaders := by
    rw [labelUnder_eq, hon, hstop]
    rfl
  rw [hfinal]
  refine ⟨fun request hmem hstatus => ?_, deferred_foldl_placeDeferred _ _⟩
  have hcovered :
      Covered (mainPass conditions map).workspace.deferred (mainPass conditions map) := by
    intro other hother hwaits
    have hlisted := (perm_inTurn _).mem_iff.mpr hother
    have hwaiting : other.id ∈ (mainPass conditions map).workspace.deferred.map (·.request) := by
      rw [deferred_mainPass hids hstop]
      exact List.mem_map_of_mem (List.mem_filter.mpr ⟨hlisted, by simpa using hwaits⟩)
    obtain ⟨leader, hleader, howner⟩ := List.mem_map.mp hwaiting
    exact ⟨leader, hleader, howner⟩
  obtain ⟨leader, hleader, -⟩ := hready.taken.covered hcovered request hmem hstatus
  cases hleader

/-- Where they have no turns, the list tells which requests wait. -/
theorem deferred_eq_waiting {map : LabelMap α} (hids : (map.requests.map (·.id)).Nodup)
    {conditions : Conditions} (hstop : (plan conditions map).2 = none)
    (hoff : map.options.placesDeferredLeaders = false) :
    (map.labelUnder conditions).2.workspace.deferred.map (·.request) =
        ((map.labelUnder conditions).2.inTurn.filter (·.status = .leaderDeferred)).map (·.id) ∧
      ((map.labelUnder conditions).2.workspace.deferred.map (·.request)).Nodup := by
  obtain ⟨rest, hready⟩ := ready_mainPass hids conditions
  have hfinal : (map.labelUnder conditions).2 = mainPass conditions map := by
    rw [labelUnder_eq, hoff]
    rfl
  rw [hfinal]
  exact ⟨deferred_mainPass hids hstop, hready.awaits.nodup⟩

/-- **The numbers of a labelling.** The counters add up to the number of requests, and every request
that fails is among those left unplaced. If nothing stops the labelling, then no request waits at
its end and none is in the list of leaders put off; or, where these have no turns, the list holds
the requests that wait, once each and in the order of turns. -/
theorem tallies_agree {map : LabelMap α} (hids : (map.requests.map (·.id)).Nodup)
    (conditions : Conditions) :
    let summary := (map.labelUnder conditions).1
    let final := (map.labelUnder conditions).2
    let failed := map.cleared.failures (plan conditions map).1
    (summary.placed + summary.placedWithLeader + summary.forced + summary.suppressed +
        summary.deferred + summary.unplaced = summary.total ∧
      summary.total = map.requests.length) ∧
    (∀ id ∈ failed, ∃ request, final.request? id = some request ∧ request.status = .unplaced) ∧
    (summary.errors = failed.length ∧ summary.errors ≤ summary.unplaced) ∧
    (summary.interrupted = false → summary.timedOut = false →
      (map.options.placesDeferredLeaders = true →
        (∀ request ∈ final.requests, request.status ≠ .leaderDeferred) ∧
          final.workspace.deferred = []) ∧
      (map.options.placesDeferredLeaders = false →
        final.workspace.deferred.map (·.request) =
            (final.inTurn.filter (·.status = .leaderDeferred)).map (·.id) ∧
          (final.workspace.deferred.map (·.request)).Nodup)) := by
  intro summary final failed
  have hsummary : summary = _ := summary_labelUnder conditions hids
  obtain ⟨htotal, herrors, -⟩ := outcome_foldl_tally final.requests (map.outcome conditions)
  rw [← hsummary] at htotal herrors
  refine ⟨⟨(counted_labelUnder hids conditions).trans htotal.symm, htotal⟩,
    exists_unplaced_of_failed hids conditions, ⟨herrors, errors_le_unplaced hids conditions⟩,
    fun hinterrupted htimedOut => ?_⟩
  have hstop := plan_of_not_stopped hids hinterrupted htimedOut
  exact ⟨none_waits hids hstop, deferred_eq_waiting hids hstop⟩

/-- One town is placed, one is put off, and one fails since a loop of its class has lost its
target. -/
theorem lost_target_leaves_unplaced :
    let request (id : Nat) (labelClass : String) : Request Rat :=
      .create id id labelClass (.point ⟨100 * id, 0⟩) (.single "Bern") ⟨10, ⟨1, 1⟩⟩
    let map : LabelMap Rat :=
      { classes :=
          [("late", ⟨[⟨1, .leader ⟨.deferred, none⟩⟩], 2⟩),
            ("lost", ⟨[⟨2, .loop ⟨.relax .bump, some 1⟩⟩], 3⟩),
            ("town", ⟨[⟨1, .point ⟨[.north, .east], 0⟩⟩], 2⟩)]
        requests := [request 1 "late", request 2 "lost", request 3 "town"]
        obstacles := [], workspace := .empty .standard
        options := { placesDeferredLeaders := false }, interrupt := false, nextRequestId := 4 }
    (map.requests.map (·.id)).Nodup ∧
      map.label.1 = { total := 3, placed := 1, deferred := 1, unplaced := 1, errors := 1 } ∧
      map.cleared.failures (plan map.conditions map).1 = [2] ∧
      map.label.2.workspace.deferred.map (·.request) = [1] ∧
      ∃ lost, map.label.2.request? 2 = some lost ∧ lost.status = .unplaced := by
  intro request map
  have horder : order map.cleared.requests = [0, 1, 2] := order_of_pairwise (by decide +kernel)
  have hplan : (plan map.conditions map).1 = [0, 1, 2] := by
    rw [plan, ← order_cleared, horder]
    rfl
  have hfailures : map.cleared.failures (plan map.conditions map).1 = [2] := by
    rw [hplan]
    decide +kernel
  have hsummary : map.label.1 =
      { total := 3, placed := 1, deferred := 1, unplaced := 1, errors := 1 } := by
    simp only [label, LabelMap.labelUnder, horder]
    decide +kernel
  have hids : (map.requests.map (·.id)).Nodup := by decide
  obtain ⟨-, hfailed, -, hlists⟩ := tallies_agree hids map.conditions
  have hwaiting := ((hlists (congrArg Summary.interrupted hsummary :)
    (congrArg Summary.timedOut hsummary :)).2 rfl).1
  refine ⟨hids, hsummary, hfailures, hwaiting.trans ?_,
    hfailed 2 (by rw [hfailures]; exact List.mem_cons_self)⟩
  rw [inTurn, order_eq_of_map_reset_eq (map_reset_labelUnder hids map.conditions), ← order_cleared,
    horder]
  simp only [LabelMap.labelUnder, horder]
  decide +kernel

end LabelMap

end LabelPlacement
