import LabelPlacement.Proofs.Relabelling

/-!
# The two passes of labelling

The main pass gives the requests their turns in order, as far as the conditions admit, and the
second pass gives the leaders that were put off theirs. A turn changes its own request and what all
requests share, so that after the pass every request is as its own turn has left it. The second
pass changes no request but those whose leaders were put off.
-/

namespace LabelPlacement

variable {α : Type}

theorem Settled.deferred_eq [Scalar α] {before after : Run α} (hsettled : Settled before after)
    (hstatus : after.request.status ≠ .leaderDeferred) :
    after.workspace.deferred = before.workspace.deferred := by
  cases hsettled with
  | placed | suppressed => rfl
  | deferred => exact absurd rfl hstatus

namespace LabelMap

/-! ### Requests in the order of their turns -/

/-- The requests in the order of their turns: by falling priority, and as they were added where
priorities are equal. -/
def inTurn (map : LabelMap α) : List (Request α) :=
  (order map.requests).filterMap (map.requests[·]?)

theorem order_congr {left right : List (Request α)}
    (hpriorities : left.map (·.priority) = right.map (·.priority)) : order left = order right := by
  have horder : ∀ requests : List (Request α), order requests =
      ((requests.map (·.priority)).zipIdx.mergeSort fun left right =>
        decide (right.1 ≤ left.1)).map (·.2) := by
    intro requests
    rw [List.zipIdx_map]
    rfl
  rw [horder, horder, hpriorities]

/-- Requests that were declared alike agree in all that labelling does not change. -/
theorem map_eq_of_map_reset_eq {κ : Type} {select : Request α → κ}
    (hselect : ∀ request, select request.reset = select request) {left right : List (Request α)}
    (hsame : left.map Request.reset = right.map Request.reset) :
    left.map select = right.map select := by
  have hreset : select = select ∘ Request.reset := funext fun request => (hselect request).symm
  rw [hreset, ← List.map_map, ← List.map_map, hsame]

theorem map_id_eq_of_map_reset_eq {left right : List (Request α)}
    (hsame : left.map Request.reset = right.map Request.reset) :
    left.map (·.id) = right.map (·.id) :=
  map_eq_of_map_reset_eq (fun request => by rw [Request.reset_eq]; rfl) hsame

theorem order_eq_of_map_reset_eq {left right : List (Request α)}
    (hsame : left.map Request.reset = right.map Request.reset) : order left = order right :=
  order_congr (map_eq_of_map_reset_eq (fun request => by rw [Request.reset_eq]; rfl) hsame)

theorem map_reset_cleared (map : LabelMap α) :
    map.cleared.requests.map Request.reset = map.requests.map Request.reset :=
  (Request.forall₂_sameDeclaration_iff.mp map.alike_cleared.requests).symm

theorem order_cleared (map : LabelMap α) : order map.cleared.requests = order map.requests :=
  order_eq_of_map_reset_eq map.map_reset_cleared

theorem exists_of_mem_order {requests : List (Request α)} {position : Nat}
    (hmem : position ∈ order requests) : ∃ request, requests[position]? = some request := by
  have hposition := (perm_order requests).mem_iff.mp hmem
  rw [List.mem_range'_1, Nat.zero_add] at hposition
  exact ⟨_, List.getElem?_eq_getElem hposition.2⟩

theorem map_filterMap_some {ι κ : Type} {find : ι → Option κ} {elements : List ι}
    (hfound : ∀ element ∈ elements, ∃ found, find element = some found) :
    (elements.filterMap find).map some = elements.map find := by
  induction elements with
  | nil => rfl
  | cons first rest ih =>
    obtain ⟨⟨found, hfirst⟩, hrest⟩ := List.forall_mem_cons.mp hfound
    rw [List.filterMap_cons, hfirst, List.map_cons, List.map_cons, ih hrest, hfirst]

theorem map_some_inTurn (map : LabelMap α) :
    map.inTurn.map some = (order map.requests).map (map.requests[·]?) :=
  map_filterMap_some fun _ hmem => exists_of_mem_order hmem

theorem filterMap_range'_getElem? {ι : Type} (elements : List ι) :
    (List.range' 0 elements.length).filterMap (elements[·]?) = elements := by
  induction elements using List.reverseRecOn with
  | nil => rfl
  | append_singleton init last ih =>
    have hinit : (List.range' 0 init.length).filterMap ((init ++ [last])[·]?) = init := by
      refine (List.filterMap_congr fun position hmem => ?_).trans ih
      rw [List.mem_range'_1, Nat.zero_add] at hmem
      exact List.getElem?_append_left hmem.2
    rw [List.length_append, List.length_singleton, List.range'_concat, List.filterMap_append, hinit]
    simp

theorem perm_inTurn (map : LabelMap α) : map.inTurn.Perm map.requests :=
  ((perm_order map.requests).filterMap _).trans (.of_eq (filterMap_range'_getElem? map.requests))

theorem request?_eq_some_iff {map : LabelMap α} (hids : (map.requests.map (·.id)).Nodup) {id : Nat}
    {request : Request α} :
    map.request? id = some request ↔ request ∈ map.requests ∧ request.id = id := by
  constructor
  · intro hfound
    exact ⟨List.mem_of_find?_eq_some hfound, by simpa using List.find?_some hfound⟩
  · rintro ⟨hmem, rfl⟩
    cases hfound : map.request? request.id with
    | none => exact absurd (List.find?_eq_none.mp hfound request hmem) (by simp)
    | some other =>
      have hid : other.id = request.id := by simpa using List.find?_some hfound
      rw [List.inj_on_of_nodup_map hids (List.mem_of_find?_eq_some hfound) hmem hid]

theorem find?_set_of_ne {requests : List (Request α)} {position : Nat} {request after : Request α}
    {id : Nat} (hfound : requests[position]? = some request) (hsame : after.id = request.id)
    (hother : request.id ≠ id) :
    (requests.set position after).find? (·.id == id) = requests.find? (·.id == id) := by
  induction requests generalizing position with
  | nil => rfl
  | cons first rest ih =>
    cases position with
    | zero =>
      obtain rfl : first = request := Option.some.inj hfound
      simp [hsame, hother]
    | succ position => rw [List.set_cons_succ, List.find?_cons, List.find?_cons, ih hfound]

/-- Counting the states of requests changes nothing else of a summary. -/
theorem outcome_foldl_tally (requests : List (Request α)) (summary : Summary) :
    let counted := requests.foldl (fun summary request => summary.tally request.status) summary
    counted.total = summary.total ∧ counted.errors = summary.errors ∧
      counted.interrupted = summary.interrupted ∧ counted.timedOut = summary.timedOut := by
  induction requests generalizing summary with
  | nil => exact ⟨rfl, rfl, rfl, rfl⟩
  | cons request rest ih =>
    obtain ⟨htotal, herrors, hinterrupted, htimedOut⟩ := ih (summary.tally request.status)
    have hone : (summary.tally request.status).total = summary.total ∧
        (summary.tally request.status).errors = summary.errors ∧
        (summary.tally request.status).interrupted = summary.interrupted ∧
        (summary.tally request.status).timedOut = summary.timedOut := by
      cases request.status <;> exact ⟨rfl, rfl, rfl, rfl⟩
    exact ⟨htotal.trans hone.1, herrors.trans hone.2.1, hinterrupted.trans hone.2.2.1,
      htimedOut.trans hone.2.2.2⟩

/-! ### Turns one after the other -/

/-- The positions whose requests have their turns, and why the others have none. -/
def schedule (conditions : Conditions) (options : LabelingOptions) :
    (turn : Nat) → List Nat → List Nat × Option Stop
  | _, [] => ([], none)
  | turn, position :: rest =>
    match conditions.stop? options turn with
    | some stop => ([], some stop)
    | none => (schedule conditions options (turn + 1) rest).map (position :: ·) id

section
variable {conditions : Conditions} {options : LabelingOptions}

theorem schedule_of_forall {positions : List Nat} {turn : Nat}
    (hgo : ∀ later, conditions.stop? options (turn + later) = none) :
    schedule conditions options turn positions = (positions, none) := by
  induction positions generalizing turn with
  | nil => rfl
  | cons position rest ih =>
    have hrest : ∀ later, conditions.stop? options (turn + 1 + later) = none := by
      intro later
      rw [Nat.add_assoc, Nat.add_comm 1]
      exact hgo (later + 1)
    rw [schedule, show conditions.stop? options turn = none from hgo 0, ih hrest]
    rfl

theorem schedule_of_stop {positions : List Nat} {turn count : Nat} {stop : Stop}
    (hgo : ∀ later < count, conditions.stop? options (turn + later) = none)
    (hstop : conditions.stop? options (turn + count) = some stop)
    (hcount : count < positions.length) :
    schedule conditions options turn positions = (positions.take count, some stop) := by
  induction positions generalizing turn count with
  | nil => cases hcount
  | cons position rest ih =>
    cases count with
    | zero =>
      rw [schedule, show conditions.stop? options turn = some stop from hstop, List.take_zero]
    | succ count =>
      have hrest : ∀ later < count, conditions.stop? options (turn + 1 + later) = none := by
        intro later hlater
        rw [Nat.add_assoc, Nat.add_comm 1]
        exact hgo (later + 1) (Nat.succ_lt_succ hlater)
      rw [Nat.add_comm count, ← Nat.add_assoc] at hstop
      rw [schedule, show conditions.stop? options turn = none from hgo 0 (Nat.succ_pos count),
        ih hrest hstop (Nat.lt_of_succ_lt_succ hcount)]
      rfl

theorem exists_schedule_append (conditions : Conditions) (options : LabelingOptions) (turn : Nat)
    (positions : List Nat) :
    ∃ rest, positions = (schedule conditions options turn positions).1 ++ rest := by
  induction positions generalizing turn with
  | nil => exact ⟨[], rfl⟩
  | cons position later ih =>
    rw [schedule]
    split
    · exact ⟨position :: later, rfl⟩
    · obtain ⟨rest, hrest⟩ := ih (turn + 1)
      exact ⟨rest, congrArg (position :: ·) hrest⟩

theorem schedule_of_not_stopped {positions : List Nat} {turn : Nat}
    (hstop : (schedule conditions options turn positions).2 = none) :
    (schedule conditions options turn positions).1 = positions := by
  induction positions generalizing turn with
  | nil => rfl
  | cons position rest ih =>
    rw [schedule] at hstop ⊢
    split at hstop
    · cases hstop
    · exact congrArg (position :: ·) (ih hstop)

end

section
variable [Trigonometric α]

/-- The map after the requests at some positions have had their turns. -/
def afterTurns (map : LabelMap α) (positions : List Nat) : LabelMap α :=
  positions.foldl (fun map position => (map.placeAt position).2) map

/-- The numbers of the requests that fail when those at some positions have their turns. -/
def failures (map : LabelMap α) : List Nat → List Nat
  | [] => []
  | position :: rest =>
    let (failed, placed) := map.placeAt position
    (if failed then (map.requests[position]?.map (·.id)).toList else []) ++ placed.failures rest

theorem placeAll_eq (conditions : Conditions) (map : LabelMap α) (turn : Nat)
    (positions : List Nat) :
    placeAll conditions map turn positions =
      let (turns, stop) := schedule conditions map.options turn positions
      (map.afterTurns turns, (map.failures turns).length, stop) := by
  induction positions generalizing map turn with
  | nil => rfl
  | cons position rest ih =>
    cases hstop : conditions.stop? map.options turn with
    | some stop => simp [placeAll, schedule, hstop, afterTurns, failures]
    | none =>
      have hrest := ih (map.placeAt position).2 (turn + 1)
      rw [options_placeAt] at hrest
      have hfailure : (if (map.placeAt position).1 then 1 else 0) =
          (if (map.placeAt position).1 then (map.requests[position]?.map (·.id)).toList
            else []).length := by
        cases hfound : map.requests[position]? with
        | none => simp [placeAt, hfound]
        | some request => by_cases hfailed : (map.placeAt position).1 <;> simp [hfailed]
      simp only [placeAll, schedule, hstop, hrest, Prod.map, failures, List.length_append, hfailure]
      rfl

/-! ### What a turn leaves alone -/

theorem getElem?_placeAt_of_ne {map : LabelMap α} {position other : Nat}
    (hother : position ≠ other) :
    (map.placeAt position).2.requests[other]? = map.requests[other]? := by
  cases hfound : map.requests[position]? with
  | none => rw [placeAt_of_none hfound]
  | some request => rw [placeAt_eq hfound, List.getElem?_set_ne hother]

theorem getElem?_afterTurns_of_notMem {positions : List Nat} {map : LabelMap α} {other : Nat}
    (hother : other ∉ positions) :
    (map.afterTurns positions).requests[other]? = map.requests[other]? := by
  induction positions generalizing map with
  | nil => rfl
  | cons position rest ih =>
    rw [List.mem_cons, not_or] at hother
    calc ((map.placeAt position).2.afterTurns rest).requests[other]?
        = (map.placeAt position).2.requests[other]? := ih hother.2
      _ = map.requests[other]? := getElem?_placeAt_of_ne (Ne.symm hother.1)

theorem afterTurns_append (map : LabelMap α) (first second : List Nat) :
    map.afterTurns (first ++ second) = (map.afterTurns first).afterTurns second :=
  List.foldl_append

theorem Ready.afterTurns {first second : List Nat} {map : LabelMap α}
    (hready : Ready (first ++ second) map) : Ready second (map.afterTurns first) := by
  induction first generalizing map with
  | nil => exact hready
  | cons position rest ih => exact ih hready.placeAt.2

theorem map_reset_placeAt (map : LabelMap α) (position : Nat) :
    (map.placeAt position).2.requests.map Request.reset = map.requests.map Request.reset := by
  cases hfound : map.requests[position]? with
  | none => rw [placeAt_of_none hfound]
  | some request =>
    rw [placeAt_eq hfound]
    exact map_set_of_eq hfound (map.turned_placeRequest request).reset_eq

theorem map_reset_afterTurns (map : LabelMap α) (positions : List Nat) :
    (map.afterTurns positions).requests.map Request.reset = map.requests.map Request.reset := by
  induction positions generalizing map with
  | nil => rfl
  | cons position rest ih => exact (ih _).trans (map.map_reset_placeAt position)

/-! ### Turns of leaders that were put off -/

theorem deferred_placeDeferred (map : LabelMap α) (leader : DeferredLeader α) :
    (map.placeDeferred leader).workspace.deferred = map.workspace.deferred := by
  cases hrequest : map.request? leader.request with
  | none => rw [placeDeferred, hrequest]
  | some request =>
    obtain ⟨position, run, -, -, hsettled, hstatus, hmap⟩ := exists_settled_placeDeferred hrequest
    rw [hmap]
    exact hsettled.deferred_eq hstatus

theorem request?_placeDeferred_of_ne {map : LabelMap α} {leader : DeferredLeader α} {id : Nat}
    (hother : leader.request ≠ id) : (map.placeDeferred leader).request? id = map.request? id := by
  cases hrequest : map.request? leader.request with
  | none => rw [placeDeferred, hrequest]
  | some request =>
    obtain ⟨position, run, hfound, hid, hsettled, -, hmap⟩ := exists_settled_placeDeferred hrequest
    have hturned : Turned false map.workspace request run.workspace run.request :=
      hsettled.turned ⟨rfl, rfl⟩ (.refl run) fun _ => rfl
    rw [hmap]
    exact find?_set_of_ne hfound hturned.id_eq (hid ▸ hother)

theorem request?_foldl_placeDeferred {leaders : List (DeferredLeader α)} {map : LabelMap α}
    {id : Nat} (hother : ∀ leader ∈ leaders, leader.request ≠ id) :
    (leaders.foldl placeDeferred map).request? id = map.request? id := by
  induction leaders generalizing map with
  | nil => rfl
  | cons leader rest ih =>
    obtain ⟨hleader, hrest⟩ := List.forall_mem_cons.mp hother
    calc (rest.foldl placeDeferred (map.placeDeferred leader)).request? id
        = (map.placeDeferred leader).request? id := ih hrest
      _ = map.request? id := request?_placeDeferred_of_ne hleader

/-! ### Labelling by passes -/

/-- The positions whose requests have their turns when a map is labelled, and why the others have
none. -/
def plan (conditions : Conditions) (map : LabelMap α) : List Nat × Option Stop :=
  schedule conditions map.options 0 (order map.requests)

/-- The map at the end of the main pass. -/
def mainPass (conditions : Conditions) (map : LabelMap α) : LabelMap α :=
  (placeAll conditions map.cleared 0 (order map.cleared.requests)).1

theorem placeAll_cleared (conditions : Conditions) (map : LabelMap α) :
    placeAll conditions map.cleared 0 (order map.cleared.requests) =
      (map.cleared.afterTurns (plan conditions map).1,
        (map.cleared.failures (plan conditions map).1).length, (plan conditions map).2) := by
  rw [placeAll_eq, order_cleared]
  rfl

theorem mainPass_eq (conditions : Conditions) (map : LabelMap α) :
    mainPass conditions map = map.cleared.afterTurns (plan conditions map).1 := by
  rw [mainPass, placeAll_cleared]

theorem labelUnder_eq (conditions : Conditions) (map : LabelMap α) :
    (map.labelUnder conditions).2 =
      if map.options.placesDeferredLeaders && (plan conditions map).2.isNone then
        (mainPass conditions map).placeDeferredLeaders
      else mainPass conditions map := by
  simp only [labelUnder, placeAll_cleared, mainPass_eq]

theorem map_reset_mainPass (conditions : Conditions) (map : LabelMap α) :
    (mainPass conditions map).requests.map Request.reset = map.requests.map Request.reset := by
  rw [mainPass_eq, map_reset_afterTurns, map_reset_cleared]

theorem ready_mainPass {map : LabelMap α} (hids : (map.requests.map (·.id)).Nodup)
    (conditions : Conditions) : ∃ rest, Ready rest (mainPass conditions map) :=
  ((ready_cleared hids).placeAll conditions 0).2

/-- The summary of a labelling before the states of the requests are counted. -/
def outcome (conditions : Conditions) (map : LabelMap α) : Summary :=
  { total := map.requests.length
    errors := (map.cleared.failures (plan conditions map).1).length
    interrupted := (plan conditions map).2 = some .interrupted
    timedOut := (plan conditions map).2 = some .timedOut }

theorem summary_labelUnder (conditions : Conditions) {map : LabelMap α}
    (hids : (map.requests.map (·.id)).Nodup) :
    (map.labelUnder conditions).1 =
      (map.labelUnder conditions).2.requests.foldl
        (fun summary request => summary.tally request.status) (map.outcome conditions) := by
  have hlength := congrArg List.length (sameOutline_labelUnder hids conditions).ids
  rw [List.length_map, List.length_map] at hlength
  rw [outcome, ← hlength]
  simp only [labelUnder, report, placeAll_cleared]

/-- **What the main pass has settled stays.** The second pass does not touch it. -/
theorem request?_labelUnder {map : LabelMap α} (hids : (map.requests.map (·.id)).Nodup)
    {conditions : Conditions} {id : Nat} {request : Request α}
    (hfound : (mainPass conditions map).request? id = some request)
    (hstatus : request.status ≠ .leaderDeferred) :
    (map.labelUnder conditions).2.request? id = some request := by
  rw [labelUnder_eq]
  split
  · obtain ⟨rest, hready⟩ := ready_mainPass hids conditions
    obtain ⟨hmem, hid⟩ := (request?_eq_some_iff hready.ids).mp hfound
    refine (request?_foldl_placeDeferred fun leader hleader howner => ?_).trans hfound
    exact hstatus (hready.awaits.waiting leader hleader request hmem (hid.trans howner.symm)).1
  · exact hfound

end

end LabelMap

end LabelPlacement
