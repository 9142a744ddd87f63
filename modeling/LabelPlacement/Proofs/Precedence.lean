import LabelPlacement.Proofs.Passes

/-!
# Earlier requests come first

What becomes of a request in the main pass depends on nothing that comes after it in the order of
turns: not on later requests, not on their classes, and not on whether they have their turns at all.
Two main passes are compared turn by turn. As long as their requests are the same, so is all that
they share (`LabelMap.Abreast`), and later turns leave what earlier ones have settled.
-/

namespace LabelPlacement

variable {α : Type}

namespace LabelMap

/-- Two maps agree in all that the first requests in the order of turns can depend on. What an
earlier labelling has made of these requests does not count. -/
structure SameFirst (count : Nat) (left right : LabelMap α) : Prop where
  metrics : left.workspace.metrics = right.workspace.metrics
  placementOptions : left.workspace.options = right.workspace.options
  features : left.workspace.index.features = right.workspace.index.features
  requests : List.Forall₂ Request.SameDeclaration
    (left.inTurn.take count) (right.inTurn.take count)
  classes : ∀ request ∈ left.inTurn.take count,
    left.class? request.labelClass = right.class? request.labelClass

/-- A map that is labelled with nothing to stop it, and with no labels on it but its own. -/
structure Undisturbed (conditions : Conditions) (map : LabelMap α) : Prop where
  ids : (map.requests.map (·.id)).Nodup
  owns : map.OwnsLabels
  limit : map.options.timeLimit = none
  calm : ∀ turn, conditions.interrupted turn = false

/-- Two maps, and the positions of requests that are the same in both and have their turns next. -/
structure Abreast (leftTurns rightTurns : List Nat) (left right : LabelMap α) : Prop where
  workspace : left.workspace = right.workspace
  requests : leftTurns.map (left.requests[·]?) = rightTurns.map (right.requests[·]?)
  classes : ∀ position ∈ leftTurns, ∀ request, left.requests[position]? = some request →
    left.class? request.labelClass = right.class? request.labelClass

/-! ### Plans -/

theorem Undisturbed.plan_eq {conditions : Conditions} {map : LabelMap α}
    (hfree : Undisturbed conditions map) : plan conditions map = (order map.requests, none) :=
  schedule_of_forall fun later => by simp [Conditions.stop?, hfree.limit, hfree.calm]

theorem plan_of_interrupted {conditions : Conditions} {map : LabelMap α} {count : Nat}
    (hlimit : map.options.timeLimit = none)
    (hbefore : ∀ turn < count, conditions.interrupted turn = false)
    (hinterrupted : conditions.interrupted count = true) (hcount : count < map.requests.length) :
    plan conditions map = ((order map.requests).take count, some .interrupted) := by
  have hlength := (perm_order map.requests).length_eq
  rw [List.length_range'] at hlength
  refine schedule_of_stop (fun turn hturn => ?_) ?_ (by rwa [hlength])
  · simp [Conditions.stop?, hlimit, hbefore turn hturn]
  · simp [Conditions.stop?, hinterrupted]

/-! ### The requests of the first turns -/

theorem SameFirst.refl (count : Nat) (map : LabelMap α) : SameFirst count map map :=
  ⟨rfl, rfl, rfl, Request.forall₂_sameDeclaration_iff.mpr rfl, fun _ _ => rfl⟩

theorem map_take_order (map : LabelMap α) (count : Nat) :
    ((order map.requests).take count).map (map.requests[·]?) =
      (map.inTurn.take count).map some := by
  rw [List.map_take, ← map_some_inTurn, List.map_take]

theorem map_take_order_cleared (map : LabelMap α) (count : Nat) :
    ((order map.requests).take count).map (map.cleared.requests[·]?) =
      ((map.inTurn.take count).map Request.reset).map some := by
  calc ((order map.requests).take count).map (map.cleared.requests[·]?)
      = (((order map.requests).take count).map (map.requests[·]?)).map
          (Option.map Request.reset) := by
        rw [List.map_map]
        exact List.map_congr_left fun position _ => List.getElem?_map
    _ = ((map.inTurn.take count).map Request.reset).map some := by
        rw [map_take_order, List.map_map, List.map_map]
        rfl

theorem exists_getElem?_order {map : LabelMap α} {turns : List Nat} {requests : List (Request α)}
    (hturns : turns.map (map.requests[·]?) = requests.map some) {request : Request α}
    (hmem : request ∈ requests) :
    ∃ turn position : Nat, turns[turn]? = some position ∧
      map.requests[position]? = some request := by
  obtain ⟨turn, hturn⟩ := List.mem_iff_getElem?.mp hmem
  have hposition := congrArg (·[turn]?) hturns
  simp only [List.getElem?_map, hturn, Option.map_some, Option.map_eq_some_iff] at hposition
  exact ⟨turn, hposition⟩

theorem getElem?_cleared {map : LabelMap α} {position : Nat} {request : Request α}
    (hfound : map.requests[position]? = some request) :
    map.cleared.requests[position]? = some request.reset := by
  rw [cleared, List.getElem?_map, hfound, Option.map_some]

theorem SameFirst.abreast {count : Nat} {left right : LabelMap α}
    (hsame : SameFirst count left right) (hleft : left.OwnsLabels) (hright : right.OwnsLabels) :
    Abreast ((order left.requests).take count) ((order right.requests).take count)
      left.cleared right.cleared where
  workspace := workspace_cleared_eq hsame.metrics hsame.placementOptions hsame.features hleft hright
  requests := by
    rw [map_take_order_cleared, map_take_order_cleared,
      Request.forall₂_sameDeclaration_iff.mp hsame.requests]
  classes := by
    intro position hposition request hrequest
    rw [cleared, List.getElem?_map, Option.map_eq_some_iff] at hrequest
    obtain ⟨original, horiginal, rfl⟩ := hrequest
    have hmem := List.mem_map_of_mem (f := (left.requests[·]?)) hposition
    rw [map_take_order, horiginal, List.mem_map_of_injective (Option.some_injective _)] at hmem
    rw [Request.reset_eq]
    exact hsame.classes original hmem

/-! ### Turns abreast -/

section
variable [Trigonometric α]

theorem class?_placeAt (map : LabelMap α) (position : Nat) :
    (map.placeAt position).2.class? = map.class? := by
  cases hfound : map.requests[position]? with
  | none => rw [placeAt_of_none hfound]
  | some request =>
    rw [placeAt_eq hfound]
    rfl

/-- A turn reads no more than its request, the class of that and the workspace. -/
theorem placeAt_congr {left right : LabelMap α} {position other : Nat}
    (hworkspace : left.workspace = right.workspace)
    (hrequest : left.requests[position]? = right.requests[other]?)
    (hclass : ∀ request, left.requests[position]? = some request →
      left.class? request.labelClass = right.class? request.labelClass) :
    (left.placeAt position).2.workspace = (right.placeAt other).2.workspace ∧
      (left.placeAt position).2.requests[position]? =
        (right.placeAt other).2.requests[other]? := by
  cases hleft : left.requests[position]? with
  | none =>
    rw [placeAt_of_none hleft, placeAt_of_none (hrequest.symm.trans hleft)]
    exact ⟨hworkspace, hrequest⟩
  | some request =>
    have hright := hrequest.symm.trans hleft
    have hplaced : left.placeRequest request = right.placeRequest request := by
      simp only [placeRequest, hworkspace, hclass request hleft]
    have hposition := (List.getElem?_eq_some_iff.mp hleft).1
    have hother := (List.getElem?_eq_some_iff.mp hright).1
    simp only [placeAt_eq hleft, placeAt_eq hright, hplaced, List.getElem?_set_self hposition,
      List.getElem?_set_self hother, and_self]

/-- **One turn abreast.** -/
theorem Abreast.placeAt {position other : Nat} {leftRest rightRest : List Nat}
    {left right : LabelMap α}
    (habreast : Abreast (position :: leftRest) (other :: rightRest) left right)
    (hposition : position ∉ leftRest) (hother : other ∉ rightRest) :
    Abreast leftRest rightRest (left.placeAt position).2 (right.placeAt other).2 ∧
      (left.placeAt position).2.requests[position]? =
        (right.placeAt other).2.requests[other]? := by
  obtain ⟨hrequest, hrest⟩ := List.cons.inj habreast.requests
  obtain ⟨hworkspace, hplaced⟩ := placeAt_congr habreast.workspace hrequest
    (habreast.classes position List.mem_cons_self)
  have hleft : ∀ next ∈ leftRest,
      (left.placeAt position).2.requests[next]? = left.requests[next]? :=
    fun next hnext => getElem?_placeAt_of_ne fun hsame => hposition (hsame ▸ hnext)
  have hright : ∀ next ∈ rightRest,
      (right.placeAt other).2.requests[next]? = right.requests[next]? :=
    fun next hnext => getElem?_placeAt_of_ne fun hsame => hother (hsame ▸ hnext)
  refine ⟨⟨hworkspace, ?_, fun next hnext request hfound => ?_⟩, hplaced⟩
  · rw [List.map_congr_left hleft, List.map_congr_left hright, hrest]
  · rw [hleft next hnext] at hfound
    rw [class?_placeAt, class?_placeAt]
    exact habreast.classes next (List.mem_cons_of_mem _ hnext) request hfound

/-- **Turns abreast.** -/
theorem Abreast.afterTurns {leftTurns rightTurns : List Nat} {left right : LabelMap α}
    (habreast : Abreast leftTurns rightTurns left right) (hleft : leftTurns.Nodup)
    (hright : rightTurns.Nodup) :
    leftTurns.map ((left.afterTurns leftTurns).requests[·]?) =
      rightTurns.map ((right.afterTurns rightTurns).requests[·]?) := by
  induction leftTurns generalizing rightTurns left right with
  | nil =>
    obtain rfl : rightTurns = [] := by simpa using habreast.requests.symm
    rfl
  | cons position leftRest ih =>
    cases rightTurns with
    | nil => cases habreast.requests
    | cons other rightRest =>
      obtain ⟨hposition, hleftRest⟩ := List.nodup_cons.mp hleft
      obtain ⟨hother, hrightRest⟩ := List.nodup_cons.mp hright
      obtain ⟨hnext, hplaced⟩ := habreast.placeAt hposition hother
      have hfirst : ((left.placeAt position).2.afterTurns leftRest).requests[position]? =
          ((right.placeAt other).2.afterTurns rightRest).requests[other]? := by
        rw [getElem?_afterTurns_of_notMem hposition, hplaced,
          getElem?_afterTurns_of_notMem hother]
      exact congrArg₂ List.cons hfirst (ih hnext hleftRest hrightRest)

/-! ### The first requests after the main pass -/

theorem exists_getElem?_afterTurns {map : LabelMap α} {position : Nat} {request : Request α}
    (hfound : map.requests[position]? = some request) (positions : List Nat) :
    ∃ settled, (map.afterTurns positions).requests[position]? = some settled ∧
      settled.id = request.id := by
  have hid := congrArg (·[position]?)
    (map_id_eq_of_map_reset_eq (map.map_reset_afterTurns positions))
  simpa only [List.getElem?_map, hfound, Option.map_some, Option.map_eq_some_iff] using hid

theorem request?_mainPass {map : LabelMap α} (hids : (map.requests.map (·.id)).Nodup)
    {conditions : Conditions} {settled : Request α}
    (hmem : settled ∈ (mainPass conditions map).requests) :
    (mainPass conditions map).request? settled.id = some settled := by
  apply (request?_eq_some_iff ?_).mpr ⟨hmem, rfl⟩
  rwa [map_id_eq_of_map_reset_eq (map_reset_mainPass conditions map)]

/-- Turns after the first ones leave the requests of these as they are. -/
theorem getElem?_mainPass {conditions : Conditions} {map : LabelMap α} {count reach position : Nat}
    (hplan : (plan conditions map).1 = (order map.requests).take reach) (hcount : count ≤ reach)
    (hposition : position ∈ (order map.requests).take count) :
    (mainPass conditions map).requests[position]? =
      (map.cleared.afterTurns ((order map.requests).take count)).requests[position]? := by
  have hsplit : (order map.requests).take reach =
      (order map.requests).take count ++ ((order map.requests).take reach).drop count := by
    calc (order map.requests).take reach
        = ((order map.requests).take reach).take count ++
            ((order map.requests).take reach).drop count := (List.take_append_drop count _).symm
      _ = _ := by rw [List.take_take, Nat.min_eq_left hcount]
  have hnodup := (nodup_order map.requests).sublist (List.take_sublist reach _)
  rw [hsplit] at hnodup
  rw [mainPass_eq, hplan, hsplit, afterTurns_append]
  exact getElem?_afterTurns_of_notMem (List.disjoint_of_nodup_append hnodup hposition)

/-- **Main passes abreast.** If both reach the first requests, these end up the same in both. -/
theorem SameFirst.exists_settled {count leftReach rightReach : Nat} {left right : LabelMap α}
    (hsame : SameFirst count left right) {conditions other : Conditions}
    (hleftIds : (left.requests.map (·.id)).Nodup) (hrightIds : (right.requests.map (·.id)).Nodup)
    (hleftOwns : left.OwnsLabels) (hrightOwns : right.OwnsLabels)
    (hleftPlan : (plan conditions left).1 = (order left.requests).take leftReach)
    (hrightPlan : (plan other right).1 = (order right.requests).take rightReach)
    (hleft : count ≤ leftReach) (hright : count ≤ rightReach) :
    ∀ request ∈ left.inTurn.take count, ∃ settled,
      (mainPass conditions left).request? request.id = some settled ∧
        (mainPass other right).request? request.id = some settled := by
  intro request hmem
  obtain ⟨turn, position, hturn, hrequest⟩ := exists_getElem?_order (left.map_take_order count) hmem
  obtain ⟨settled, hsettled, hid⟩ :=
    exists_getElem?_afterTurns (getElem?_cleared hrequest) ((order left.requests).take count)
  have hid : settled.id = request.id := by rw [hid, Request.reset_eq]; rfl
  have hplaced := congrArg (·[turn]?) <| (hsame.abreast hleftOwns hrightOwns).afterTurns
    ((nodup_order _).sublist (List.take_sublist _ _))
    ((nodup_order _).sublist (List.take_sublist _ _))
  simp only [List.getElem?_map, hturn, Option.map_some, hsettled] at hplaced
  obtain ⟨partner, hpartner, hcopy⟩ := Option.map_eq_some_iff.mp hplaced.symm
  have hleftEnd := getElem?_mainPass hleftPlan hleft (List.mem_of_getElem? hturn)
  have hrightEnd := getElem?_mainPass hrightPlan hright (List.mem_of_getElem? hpartner)
  rw [← hid]
  exact ⟨settled, request?_mainPass hleftIds (List.mem_of_getElem? (hleftEnd.trans hsettled)),
    request?_mainPass hrightIds (List.mem_of_getElem? (hrightEnd.trans hcopy))⟩

/-- A request without a turn in the main pass is left as clearing has left it. -/
theorem request?_of_not_reached {map : LabelMap α} (hids : (map.requests.map (·.id)).Nodup)
    {conditions : Conditions} {count : Nat}
    (hplan : (plan conditions map).1 = (order map.requests).take count) :
    ∀ request ∈ map.inTurn.drop count,
      (mainPass conditions map).request? request.id = some request.reset := by
  intro request hmem
  have hturns : ((order map.requests).drop count).map (map.requests[·]?) =
      (map.inTurn.drop count).map some := by
    rw [List.map_drop, ← map_some_inTurn, List.map_drop]
  obtain ⟨turn, position, hturn, hrequest⟩ := exists_getElem?_order hturns hmem
  have hlater : position ∉ (order map.requests).take count := by
    intro hearlier
    have hnodup := nodup_order map.requests
    rw [← List.take_append_drop count (order map.requests)] at hnodup
    exact List.disjoint_of_nodup_append hnodup hearlier (List.mem_of_getElem? hturn)
  have hkept : (mainPass conditions map).requests[position]? = some request.reset := by
    rw [mainPass_eq, hplan, getElem?_afterTurns_of_notMem hlater, getElem?_cleared hrequest]
  have hid : request.id = request.reset.id := by rw [Request.reset_eq]; rfl
  rw [hid]
  exact request?_mainPass hids (List.mem_of_getElem? hkept)

/-- **Earlier requests come first.** Of two maps that agree in all that the first requests can
depend on, whatever comes after these, the main pass makes the same of them, and what it has not put
off is there at the end of labelling. An interruption takes nothing from the requests before it, and
gives nothing to those after it. -/
theorem earlier_requests_come_first :
    (∀ (count : Nat) (left right : LabelMap α) (conditions other : Conditions),
      Undisturbed conditions left → Undisturbed other right → SameFirst count left right →
      ∀ request ∈ left.inTurn.take count, ∃ settled,
        (mainPass conditions left).request? request.id = some settled ∧
        (mainPass other right).request? request.id = some settled ∧
        (settled.status ≠ .leaderDeferred →
          (left.labelUnder conditions).2.request? request.id = some settled ∧
          (right.labelUnder other).2.request? request.id = some settled)) ∧
    ∀ (count : Nat) (map : LabelMap α) (conditions other : Conditions),
      Undisturbed other map → count < map.requests.length →
      (∀ turn < count, conditions.interrupted turn = false) →
      conditions.interrupted count = true →
      (map.labelUnder conditions).1.interrupted = true ∧
      (∀ request ∈ map.inTurn.take count, ∃ settled,
        (map.labelUnder conditions).2.request? request.id = some settled ∧
        (mainPass other map).request? request.id = some settled) ∧
      ∀ request ∈ map.inTurn.drop count, ∃ skipped,
        (map.labelUnder conditions).2.request? request.id = some skipped ∧
        skipped.status = .unplaced ∧ skipped.placement = none ∧
        ∀ entry ∈ (map.labelUnder conditions).2.workspace.index.entries,
          entry.owner ≠ .label request.id := by
  refine ⟨?_, ?_⟩
  · intro count left right conditions other hleft hright hsame request hmem
    have hleftPlan : (plan conditions left).1 =
        (order left.requests).take (max count (order left.requests).length) := by
      rw [hleft.plan_eq, List.take_of_length_le (Nat.le_max_right _ _)]
    have hrightPlan : (plan other right).1 =
        (order right.requests).take (max count (order right.requests).length) := by
      rw [hright.plan_eq, List.take_of_length_le (Nat.le_max_right _ _)]
    obtain ⟨settled, hleftEnd, hrightEnd⟩ := hsame.exists_settled hleft.ids hright.ids hleft.owns
      hright.owns hleftPlan hrightPlan (Nat.le_max_left _ _) (Nat.le_max_left _ _) request hmem
    exact ⟨settled, hleftEnd, hrightEnd, fun hstatus =>
      ⟨request?_labelUnder hleft.ids hleftEnd hstatus,
        request?_labelUnder hright.ids hrightEnd hstatus⟩⟩
  · intro count map conditions other hfree hcount hbefore hinterrupted
    have hplan := plan_of_interrupted hfree.limit hbefore hinterrupted hcount
    have hturns : (plan conditions map).1 = (order map.requests).take count := by rw [hplan]
    have hwhole : (plan other map).1 =
        (order map.requests).take (max count (order map.requests).length) := by
      rw [hfree.plan_eq, List.take_of_length_le (Nat.le_max_right _ _)]
    have hfinal : (map.labelUnder conditions).2 = mainPass conditions map := by
      rw [labelUnder_eq, hplan, Option.isNone_some, Bool.and_false, if_neg (by simp)]
    rw [hfinal]
    refine ⟨?_, ?_, fun request hmem => ?_⟩
    · rw [summary_labelUnder conditions hfree.ids, (outcome_foldl_tally _ _).2.2.1, outcome, hplan]
      rfl
    · exact (SameFirst.refl count map).exists_settled hfree.ids hfree.ids hfree.owns hfree.owns
        hturns hwhole (Nat.le_refl _) (Nat.le_max_left _ _)
    · have hskipped := request?_of_not_reached hfree.ids hturns request hmem
      refine ⟨_, hskipped, rfl, rfl, fun entry hentry howner => ?_⟩
      have hagree := recordsAgree_labelUnder hfree.ids hfree.owns conditions
      rw [hfinal] at hagree
      have hlabel : entry ∈ (mainPass conditions map).workspace.index.labels :=
        List.mem_filter.mpr ⟨hentry, by rw [howner]; rfl⟩
      obtain ⟨holder, hholder, hlabelled, hplaced⟩ := hagree.owner_mem hlabel
      have hid : holder.id = request.id := Owner.label.inj (hlabelled.symm.trans howner)
      have hsame := (request?_eq_some_iff hagree.ids).mpr ⟨hholder, hid⟩
      obtain rfl := Option.some.inj (hskipped.symm.trans hsame)
      exact hplaced rfl

end

/-- A town is labelled alike whether or not a rival close by follows, and also if an interruption
keeps the rival from its turn. -/
theorem town_comes_before_rival :
    let town : Request Rat := .create 1 1 "town" (.point ⟨0, 0⟩) (.single "Bern") ⟨10, ⟨1, 1⟩⟩
    let rival : Request Rat := .create 2 2 "town" (.point ⟨1, 0⟩) (.single "Thun") ⟨10, ⟨1, 1⟩⟩
    let alone : LabelMap Rat :=
      { classes := [("town", ⟨[⟨1, .point ⟨[.north, .east], 0⟩⟩, ⟨2, .failure .suppress⟩], 3⟩)]
        requests := [town], obstacles := [1], workspace := .empty .standard
        options := {}, interrupt := false, nextRequestId := 2 }
    let both : LabelMap Rat := { alone with requests := [town, rival] }
    let halting : Conditions := ⟨fun turn => turn == 1, fun _ => 0⟩
    Undisturbed alone.conditions alone ∧ Undisturbed both.conditions both ∧
      SameFirst 1 alone both ∧
      (∃ settled, (mainPass alone.conditions alone).request? 1 = some settled ∧
        (mainPass both.conditions both).request? 1 = some settled) ∧
      (both.labelUnder halting).1.interrupted = true ∧
      ∃ skipped, (both.labelUnder halting).2.request? 2 = some skipped ∧
        skipped.status = .unplaced ∧ skipped.placement = none := by
  intro town rival alone both halting
  have halone : alone.inTurn = [town] := by
    rw [inTurn, order_of_pairwise (by decide +kernel)]
    rfl
  have hboth : both.inTurn = [town, rival] := by
    rw [inTurn, order_of_pairwise (by decide +kernel)]
    rfl
  have hfirst : Undisturbed alone.conditions alone :=
    ⟨by decide +kernel, by decide +kernel, rfl, fun _ => rfl⟩
  have hsecond : Undisturbed both.conditions both :=
    ⟨by decide +kernel, by decide +kernel, rfl, fun _ => rfl⟩
  have hsame : SameFirst 1 alone both := by
    refine ⟨rfl, rfl, rfl, ?_, fun _ _ => rfl⟩
    rw [halone, hboth]
    exact .cons (Request.sameDeclaration_iff.mpr rfl) .nil
  obtain ⟨settled, hleft, hright, -⟩ := earlier_requests_come_first.1 1 alone both alone.conditions
    both.conditions hfirst hsecond hsame town (by rw [halone]; exact List.mem_cons_self)
  obtain ⟨hinterrupted, -, hskipped⟩ := earlier_requests_come_first.2 1 both halting both.conditions
    hsecond (by decide) (by decide) rfl
  obtain ⟨skipped, hfound, hstatus, hplacement, -⟩ :=
    hskipped rival (by rw [hboth]; exact List.mem_cons_self)
  exact ⟨hfirst, hsecond, hsame, ⟨settled, hleft, hright⟩, hinterrupted, skipped, hfound, hstatus,
    hplacement⟩

end LabelMap

end LabelPlacement
