import Mathlib.Data.List.Chain
import Mathlib.Data.List.Nodup
import Mathlib.Logic.Relation
import LabelPlacement.Map
import LabelPlacement.Proofs.Turns

/-!
# The moments of labelling

Labelling clears a map and takes it through its moments: the map before each turn and after the last
one, in the main pass and then in the pass over the leaders that were put off. From one moment to
the next the map makes a `LabelMap.Step`. If the requests have different numbers, then no request
has its turn once it is placed (`LabelMap.steps_of_mem_moments`), so that an invariant of labelling
is one of a single turn.
-/

namespace LabelPlacement

variable {α : Type}

namespace LabelMap

/-! ### Requests in a list -/

theorem exists_modifyIn_eq_set {id : Nat} {requests : List (Request α)} {request : Request α}
    (hfound : requests.find? (·.id == id) = some request) (change : Request α → Request α) :
    ∃ position, requests[position]? = some request ∧ request.id = id ∧
      modifyIn id change requests = requests.set position (change request) := by
  induction requests with
  | nil => cases hfound
  | cons first rest ih =>
    rw [List.find?_cons] at hfound
    by_cases hid : first.id = id
    · simp only [hid, beq_self_eq_true, Option.some.injEq] at hfound
      subst hfound
      exact ⟨0, rfl, hid, by simp [modifyIn, hid]⟩
    · simp only [beq_eq_false_iff_ne.mpr hid] at hfound
      obtain ⟨position, hposition, hrequest, hchanged⟩ := ih hfound
      exact ⟨position + 1, hposition, hrequest, by simp [modifyIn, hid, hchanged]⟩

theorem map_set_of_eq {κ : Type} {select : Request α → κ} {requests : List (Request α)}
    {position : Nat} {request after : Request α} (hfound : requests[position]? = some request)
    (hsame : select after = select request) :
    (requests.set position after).map select = requests.map select := by
  obtain ⟨hposition, rfl⟩ := List.getElem?_eq_some_iff.mp hfound
  rw [List.map_set, hsame]
  refine List.ext_getElem (by simp) fun other _ _ => ?_
  rw [List.getElem_set]
  split
  · rename_i hsame
    simp [hsame]
  · rfl

theorem map_id_set {requests : List (Request α)} {position : Nat} {request after : Request α}
    (hfound : requests[position]? = some request) (hid : after.id = request.id) :
    (requests.set position after).map (·.id) = requests.map (·.id) :=
  map_set_of_eq hfound hid

/-- After a turn, a request is the one that had it, or an earlier one of another number. -/
theorem eq_or_mem_of_mem_set {requests : List (Request α)} {position : Nat}
    {request after other : Request α} (hids : (requests.map (·.id)).Nodup)
    (hfound : requests[position]? = some request) (hid : after.id = request.id)
    (hmem : other ∈ requests.set position after) :
    other = after ∨ (other ∈ requests ∧ other.id ≠ request.id) := by
  by_cases hsame : other.id = request.id
  · refine Or.inl (List.inj_on_of_nodup_map ?_ hmem ?_ (hsame.trans hid.symm))
    · rwa [map_id_set hfound hid]
    · exact List.mem_set (List.getElem?_eq_some_iff.mp hfound).1 after
  · rcases List.mem_or_eq_of_mem_set hmem with hold | hafter
    · exact Or.inr ⟨hold, hsame⟩
    · exact Or.inl hafter

/-- The leaders put off belong to different requests, and each of these waits for its turn. -/
structure Awaits (leaders : List (DeferredLeader α)) (requests : List (Request α)) : Prop where
  nodup : (leaders.map (·.request)).Nodup
  waiting : ∀ leader ∈ leaders, ∀ request ∈ requests, request.id = leader.request →
    request.status = .leaderDeferred ∧ request.placement = none

theorem Awaits.turn {leaders : List (DeferredLeader α)} {requests : List (Request α)}
    (hawaits : Awaits leaders requests) {position : Nat} {request after : Request α}
    (hids : (requests.map (·.id)).Nodup) (hfound : requests[position]? = some request)
    (hid : after.id = request.id) (hother : ∀ leader ∈ leaders, leader.request ≠ request.id) :
    Awaits leaders (requests.set position after) := by
  refine ⟨hawaits.nodup, fun leader hleader other hmem howner => ?_⟩
  rcases eq_or_mem_of_mem_set hids hfound hid hmem with rfl | ⟨hold, _⟩
  · exact absurd (howner.symm.trans hid) (hother leader hleader)
  · exact hawaits.waiting leader hleader other hold howner

/-- A request whose leader is put off waits from then on. -/
theorem Awaits.defer {leaders : List (DeferredLeader α)} {requests : List (Request α)}
    (hawaits : Awaits leaders requests) {position : Nat} {request after : Request α}
    (hids : (requests.map (·.id)).Nodup) (hfound : requests[position]? = some request)
    (hid : after.id = request.id) (hstatus : after.status = .leaderDeferred)
    (hplacement : after.placement = none) (maxLength : Option α) :
    Awaits (leaders.filter (·.request != request.id) ++ [⟨request.id, maxLength⟩])
      (requests.set position after) := by
  refine ⟨?_, fun leader hleader other hmem howner => ?_⟩
  · rw [List.map_append, List.map_singleton, List.nodup_append]
    refine ⟨hawaits.nodup.sublist (List.filter_sublist.map _), List.nodup_singleton _, ?_⟩
    rintro number hnumber other hother rfl
    obtain ⟨leader, hleader, hrequest⟩ := List.mem_map.mp hnumber
    have hdifferent := (List.mem_filter.mp hleader).2
    rw [List.mem_singleton.mp hother] at hrequest
    simp [hrequest] at hdifferent
  · rcases eq_or_mem_of_mem_set hids hfound hid hmem with rfl | ⟨hold, hother⟩
    · exact ⟨hstatus, hplacement⟩
    · rcases List.mem_append.mp hleader with hkept | hnew
      · exact hawaits.waiting leader (List.mem_filter.mp hkept).1 other hold howner
      · rw [List.mem_singleton.mp hnew] at howner
        exact absurd howner hother

/-! ### The map before its first turn -/

theorem perm_order (requests : List (Request α)) :
    (order requests).Perm (List.range' 0 requests.length) := by
  refine ((List.mergeSort_perm _ _).map _).trans (.of_eq ?_)
  rw [List.map_map, ← List.zipIdx_map_snd 0 requests]
  rfl

theorem nodup_order (requests : List (Request α)) : (order requests).Nodup :=
  (perm_order requests).nodup_iff.mpr List.nodup_range'

/-- Where no later request has a higher priority, requests have their turns as they were added. -/
theorem order_of_pairwise {requests : List (Request α)}
    (hfalling : requests.Pairwise fun earlier later => later.priority ≤ earlier.priority) :
    order requests = List.range' 0 requests.length := by
  rw [order, List.mergeSort_of_pairwise]
  · rw [List.map_map, ← List.zipIdx_map_snd 0 requests]
    rfl
  · simp only [List.pairwise_map, decide_eq_true_eq]
    rw [← List.zipIdx_map_fst 0 requests, List.pairwise_map] at hfalling
    exact hfalling

theorem map_id_cleared (map : LabelMap α) :
    map.cleared.requests.map (·.id) = map.requests.map (·.id) := by
  rw [cleared, List.map_map]
  refine List.map_congr_left fun request _ => ?_
  simp [Request.reset_eq, Request.declared, Request.shown]

theorem exists_of_mem_cleared {map : LabelMap α} {request : Request α}
    (hmem : request ∈ map.cleared.requests) : ∃ original ∈ map.requests, original.reset = request :=
  List.mem_map.mp hmem

/-- What the main pass relies on while the requests at some positions have not had their turn. -/
structure Ready (remaining : List Nat) (map : LabelMap α) : Prop where
  ids : (map.requests.map (·.id)).Nodup
  nodup : remaining.Nodup
  fresh : ∀ position ∈ remaining, ∀ request, map.requests[position]? = some request →
    request.status = .unplaced ∧ request.placement = none
  awaits : Awaits map.workspace.deferred map.requests

/-- What the pass over the leaders put off relies on while some have not had their turn. -/
structure DeferredReady (remaining : List (DeferredLeader α)) (map : LabelMap α) : Prop where
  ids : (map.requests.map (·.id)).Nodup
  awaits : Awaits remaining map.requests

theorem Ready.taken {remaining : List Nat} {map : LabelMap α} (hready : Ready remaining map) :
    DeferredReady map.workspace.deferred
      { map with workspace := { map.workspace with deferred := [] } } :=
  ⟨hready.ids, hready.awaits⟩

theorem Ready.ne_of_mem_deferred {position : Nat} {rest : List Nat} {map : LabelMap α}
    (hready : Ready (position :: rest) map) {request : Request α}
    (hfound : map.requests[position]? = some request) :
    ∀ leader ∈ map.workspace.deferred, leader.request ≠ request.id := by
  intro leader hleader howner
  have hstatus := (hready.fresh position List.mem_cons_self request hfound).1
  have hwaiting := hready.awaits.waiting leader hleader request (List.mem_of_getElem? hfound)
    howner.symm
  rw [hstatus] at hwaiting
  cases hwaiting.1

theorem ready_cleared {map : LabelMap α} (hids : (map.requests.map (·.id)).Nodup) :
    Ready (order map.cleared.requests) map.cleared := by
  refine ⟨by rwa [map_id_cleared], nodup_order _, fun position _ request hfound => ?_,
    List.nodup_nil, by simp [cleared]⟩
  obtain ⟨original, _, rfl⟩ := exists_of_mem_cleared (List.mem_of_getElem? hfound)
  exact ⟨rfl, rfl⟩

/-! ### Steps of a map -/

section
variable [Trigonometric α]

/-- Whether the labels of a request's class may cross lines and edges at some time. -/
def mayCrossLines (map : LabelMap α) (request : Request α) : Bool :=
  (map.class? request.labelClass).any Sequence.liftsOverline

/-- What labelling does to a map after it has been cleared: a request that is not placed yet has its
turn, or the leaders put off are taken from their list to have theirs. -/
inductive Step : LabelMap α → LabelMap α → Prop
  | turn {map : LabelMap α} {position : Nat} {request after : Request α} {workspace : Workspace α}
      (hfound : map.requests[position]? = some request) (hstatus : request.status.isPlaced = false)
      (hplacement : request.placement = none)
      (hturned : Turned (map.mayCrossLines request) map.workspace request workspace after) :
      Step map { map with requests := map.requests.set position after, workspace }
  | taken (map : LabelMap α) :
      Step map { map with workspace := { map.workspace with deferred := [] } }

/-- Any number of steps. -/
def Steps : LabelMap α → LabelMap α → Prop := Relation.ReflTransGen Step

/-- What every step preserves, any number of steps preserves. -/
theorem Steps.preserves {inv : LabelMap α → Prop}
    (hstep : ∀ {before after}, inv before → Step before after → inv after)
    {before after : LabelMap α} (hsteps : Steps before after) (hinv : inv before) : inv after := by
  induction hsteps with
  | refl => exact hinv
  | tail _ hlast ih => exact hstep ih hlast

theorem turned_placeRequest (map : LabelMap α) (request : Request α) :
    Turned (map.mayCrossLines request) map.workspace request (map.placeRequest request).2.2
      (map.placeRequest request).2.1 := by
  rw [placeRequest, mayCrossLines]
  cases hclass : map.class? request.labelClass with
  | none => exact .suppressed (request.reset_settle .suppressed request.placement) rfl rfl
  | some sequence =>
    have hturned := sequence.turned_execute map.workspace request
    simp only [Option.any_some]
    split <;> simp_all

/-- The turn of a leader that was put off settles its label, and does not put the leader off
again. -/
theorem exists_settled_placeDeferred {map : LabelMap α} {leader : DeferredLeader α}
    {request : Request α} (hrequest : map.request? leader.request = some request) :
    ∃ position run, map.requests[position]? = some request ∧ request.id = leader.request ∧
      Settled (Run.start map.workspace request) run ∧ run.request.status ≠ .leaderDeferred ∧
      map.placeDeferred leader =
        { map with
            requests := map.requests.set position run.request, workspace := run.workspace } := by
  have hsettled : ∃ run : Run α, Settled (Run.start map.workspace request) run ∧
      run.request.status ≠ .leaderDeferred ∧
      map.placeDeferred leader =
        { map.modifyRequest leader.request (fun _ => run.request) with
            workspace := run.workspace } := by
    cases hplace : (Run.start map.workspace request).findLeader? leader.maxLength with
    | some place =>
      exact ⟨_, .placed place.candidate .placedWithLeader (some place.leader) none rfl rfl
        fun _ => Run.conflicts_of_findLeader? hplace, by rintro ⟨⟩,
        by simp only [placeDeferred, hrequest, Run.placeWithLeader, hplace]; rfl⟩
    | none =>
      exact ⟨_, .suppressed, by rintro ⟨⟩,
        by simp only [placeDeferred, hrequest, Run.placeWithLeader, hplace]⟩
  obtain ⟨run, hsettled, hstatus, hmap⟩ := hsettled
  obtain ⟨position, hfound, hid, hchanged⟩ :=
    exists_modifyIn_eq_set hrequest fun _ => run.request
  exact ⟨position, run, hfound, hid, hsettled, hstatus, by rw [hmap, modifyRequest, hchanged]⟩

/-! ### The moments of labelling -/

/-- The maps that the main pass goes through. -/
def turns (conditions : Conditions) (map : LabelMap α) : (turn : Nat) → List Nat → List (LabelMap α)
  | _, [] => [map]
  | turn, position :: rest =>
    match conditions.stop? map.options turn with
    | some _ => [map]
    | none => map :: turns conditions (map.placeAt position).2 (turn + 1) rest

/-- The maps that the pass over the leaders put off goes through. -/
def deferredTurns (map : LabelMap α) : List (DeferredLeader α) → List (LabelMap α)
  | [] => [map]
  | leader :: rest => map :: deferredTurns (map.placeDeferred leader) rest

/-- The maps that labelling goes through once it has cleared the map, in order. -/
def moments (conditions : Conditions) (map : LabelMap α) : List (LabelMap α) :=
  let cleared := map.cleared
  let (placed, _, stop) := placeAll conditions cleared 0 (order cleared.requests)
  turns conditions cleared 0 (order cleared.requests) ++
    if map.options.placesDeferredLeaders && stop.isNone then
      deferredTurns { placed with workspace := { placed.workspace with deferred := [] } }
        placed.workspace.deferred
    else []

theorem head?_turns (conditions : Conditions) (map : LabelMap α) (turn : Nat)
    (positions : List Nat) : (turns conditions map turn positions).head? = some map := by
  cases positions with
  | nil => rfl
  | cons position rest =>
    rw [turns]
    split <;> rfl

theorem head?_deferredTurns (map : LabelMap α) (leaders : List (DeferredLeader α)) :
    (deferredTurns map leaders).head? = some map := by
  cases leaders <;> rfl

theorem getLast?_turns (conditions : Conditions) (positions : List Nat) (map : LabelMap α)
    (turn : Nat) : (turns conditions map turn positions).getLast? =
      some (placeAll conditions map turn positions).1 := by
  induction positions generalizing map turn with
  | nil => rfl
  | cons position rest ih =>
    cases hstop : conditions.stop? map.options turn with
    | some stop => simp [turns, placeAll, hstop]
    | none => simp [turns, placeAll, hstop, List.getLast?_cons, ih]

theorem getLast?_deferredTurns (leaders : List (DeferredLeader α)) (map : LabelMap α) :
    (deferredTurns map leaders).getLast? = some (leaders.foldl placeDeferred map) := by
  induction leaders generalizing map with
  | nil => rfl
  | cons leader rest ih =>
    rw [deferredTurns, List.getLast?_cons, ih]
    rfl

theorem getLast?_moments (conditions : Conditions) (map : LabelMap α) :
    (moments conditions map).getLast? = some (map.labelUnder conditions).2 := by
  simp only [moments, labelUnder, placeDeferredLeaders]
  split
  · rw [List.getLast?_append, getLast?_deferredTurns]
    rfl
  · rw [List.append_nil, getLast?_turns]

/-! ### Steps from moment to moment -/

theorem placeAt_eq {map : LabelMap α} {position : Nat} {request : Request α}
    (hfound : map.requests[position]? = some request) :
    (map.placeAt position).2 =
      { map with
          requests := map.requests.set position (map.placeRequest request).2.1
          workspace := (map.placeRequest request).2.2 } := by
  rw [placeAt, hfound]

theorem placeAt_of_none {map : LabelMap α} {position : Nat}
    (hnone : map.requests[position]? = none) : (map.placeAt position).2 = map := by
  rw [placeAt, hnone]

theorem Ready.turn {position : Nat} {rest : List Nat} {map : LabelMap α}
    (hready : Ready (position :: rest) map) {request after : Request α} {workspace : Workspace α}
    (hfound : map.requests[position]? = some request)
    (hturned : Turned (map.mayCrossLines request) map.workspace request workspace after) :
    Ready rest { map with requests := map.requests.set position after, workspace } := by
  obtain ⟨hposition, hrest⟩ := List.nodup_cons.mp hready.nodup
  have hplacement := (hready.fresh position List.mem_cons_self request hfound).2
  have hid := hturned.id_eq
  have hother := hready.ne_of_mem_deferred hfound
  refine ⟨by simpa only [map_id_set hfound hid] using hready.ids, hrest, ?_, ?_⟩
  · intro other hmem request hrequest
    have hdifferent : position ≠ other := fun hsame => hposition (hsame ▸ hmem)
    simp only [List.getElem?_set_ne hdifferent] at hrequest
    exact hready.fresh other (List.mem_cons_of_mem _ hmem) request hrequest
  · cases hturned with
    | deferred _ hafter hkept maxLength =>
      exact hready.awaits.defer hready.ids hfound hid hafter (hkept.trans hplacement) maxLength
    | unsettled | placed | suppressed =>
      exact hready.awaits.turn hready.ids hfound hid hother

theorem Ready.placeAt {position : Nat} {rest : List Nat} {map : LabelMap α}
    (hready : Ready (position :: rest) map) :
    Relation.ReflGen Step map (map.placeAt position).2 ∧
      Ready rest (map.placeAt position).2 := by
  cases hfound : map.requests[position]? with
  | none =>
    rw [placeAt_of_none hfound]
    exact ⟨.refl, hready.ids, (List.nodup_cons.mp hready.nodup).2,
      fun other hother => hready.fresh other (List.mem_cons_of_mem _ hother), hready.awaits⟩
  | some request =>
    obtain ⟨hstatus, hplacement⟩ := hready.fresh position List.mem_cons_self request hfound
    have hturned := map.turned_placeRequest request
    rw [placeAt_eq hfound]
    exact ⟨.single (.turn hfound (by rw [hstatus]; rfl) hplacement hturned),
      hready.turn hfound hturned⟩

/-- The main pass goes from moment to moment by steps, and leaves the leaders put off waiting. -/
theorem Ready.placeAll {positions : List Nat} {map : LabelMap α} (hready : Ready positions map)
    (conditions : Conditions) (turn : Nat) :
    (turns conditions map turn positions).IsChain (Relation.ReflGen Step) ∧
      ∃ rest, Ready rest (placeAll conditions map turn positions).1 := by
  induction positions generalizing map turn with
  | nil => exact ⟨.singleton map, [], hready⟩
  | cons position rest ih =>
    cases hstop : conditions.stop? map.options turn with
    | some stop =>
      simp only [turns, LabelMap.placeAll, hstop]
      exact ⟨.singleton map, _, hready⟩
    | none =>
      obtain ⟨hstep, hnext⟩ := hready.placeAt
      obtain ⟨hchain, hend⟩ := ih hnext (turn + 1)
      simp only [turns, LabelMap.placeAll, hstop, List.isChain_cons, head?_turns]
      exact ⟨⟨by simpa using hstep, hchain⟩, hend⟩

theorem DeferredReady.placeDeferred {leader : DeferredLeader α} {rest : List (DeferredLeader α)}
    {map : LabelMap α} (hready : DeferredReady (leader :: rest) map) :
    Relation.ReflGen Step map (map.placeDeferred leader) ∧
      DeferredReady rest (map.placeDeferred leader) := by
  obtain ⟨hleader, hrest⟩ := List.nodup_cons.mp hready.awaits.nodup
  have hawaits : Awaits rest map.requests :=
    ⟨hrest, fun other hother => hready.awaits.waiting other (List.mem_cons_of_mem _ hother)⟩
  cases hrequest : map.request? leader.request with
  | none =>
    rw [LabelMap.placeDeferred, hrequest]
    exact ⟨.refl, hready.ids, hawaits⟩
  | some request =>
    obtain ⟨position, run, hfound, hid, hsettled, -, hmap⟩ := exists_settled_placeDeferred hrequest
    have hturned : Turned (map.mayCrossLines request) map.workspace request run.workspace
        run.request := hsettled.turned ⟨rfl, rfl⟩ (.refl run) fun _ => rfl
    obtain ⟨hstatus, hplacement⟩ := hready.awaits.waiting leader List.mem_cons_self request
      (List.mem_of_getElem? hfound) hid
    have hother : ∀ other ∈ rest, other.request ≠ request.id := by
      intro other hmem howner
      exact hleader (List.mem_map.mpr ⟨other, hmem, howner.trans hid⟩)
    rw [hmap]
    refine ⟨.single (.turn hfound (by rw [hstatus]; rfl) hplacement hturned), ?_,
      hawaits.turn hready.ids hfound hturned.id_eq hother⟩
    simpa only [map_id_set hfound hturned.id_eq] using hready.ids

theorem DeferredReady.isChain {leaders : List (DeferredLeader α)} {map : LabelMap α}
    (hready : DeferredReady leaders map) :
    (deferredTurns map leaders).IsChain (Relation.ReflGen Step) := by
  induction leaders generalizing map with
  | nil => exact .singleton map
  | cons leader rest ih =>
    obtain ⟨hstep, hnext⟩ := hready.placeDeferred
    simp only [deferredTurns, List.isChain_cons, head?_deferredTurns]
    exact ⟨by simpa using hstep, ih hnext⟩

/-! ### Labelling as a whole -/

/-- **From moment to moment.** A map whose requests have different numbers makes at most one step
from each moment of its labelling to the next. -/
theorem isChain_moments {map : LabelMap α} (hids : (map.requests.map (·.id)).Nodup)
    (conditions : Conditions) : (moments conditions map).IsChain (Relation.ReflGen Step) := by
  obtain ⟨hmain, rest, hready⟩ := (ready_cleared hids).placeAll conditions 0
  simp only [moments]
  split
  · refine List.isChain_append.mpr ⟨hmain, hready.taken.isChain, ?_⟩
    intro last hlast first hfirst
    rw [getLast?_turns] at hlast
    rw [head?_deferredTurns] at hfirst
    rw [← Option.some.inj hlast, ← Option.some.inj hfirst]
    exact .single (.taken _)
  · rwa [List.append_nil]

theorem head?_moments (conditions : Conditions) (map : LabelMap α) :
    (moments conditions map).head? = some map.cleared := by
  simp only [moments, List.head?_append, head?_turns, Option.some_or]

/-- Along a chain, steps lead from the first map to every other and from there to the last one. -/
theorem steps_of_isChain {maps : List (LabelMap α)} {first last : LabelMap α}
    (hchain : maps.IsChain (Relation.ReflGen Step)) (hfirst : maps.head? = some first)
    (hlast : maps.getLast? = some last) : ∀ map ∈ maps, Steps first map ∧ Steps map last := by
  induction maps generalizing first with
  | nil => cases hfirst
  | cons head rest ih =>
    obtain rfl : head = first := Option.some.inj hfirst
    cases rest with
    | nil =>
      obtain rfl : head = last := Option.some.inj hlast
      simp [Steps, Relation.ReflTransGen.refl]
    | cons second rest =>
      obtain ⟨hstep, hrest⟩ := List.isChain_cons_cons.mp hchain
      have hsteps := ih hrest rfl (by simpa using hlast)
      have hhead : Steps head second := hstep.to_reflTransGen
      rw [List.forall_mem_cons]
      refine ⟨⟨.refl, hhead.trans (hsteps second List.mem_cons_self).2⟩, fun map hmap => ?_⟩
      exact ⟨hhead.trans (hsteps map hmap).1, (hsteps map hmap).2⟩

theorem steps_of_mem_moments {map : LabelMap α} (hids : (map.requests.map (·.id)).Nodup)
    (conditions : Conditions) :
    ∀ moment ∈ moments conditions map,
      Steps map.cleared moment ∧ Steps moment (map.labelUnder conditions).2 :=
  steps_of_isChain (isChain_moments hids conditions) (head?_moments conditions map)
    (getLast?_moments conditions map)

/-- **Labelling by steps.** -/
theorem steps_labelUnder {map : LabelMap α} (hids : (map.requests.map (·.id)).Nodup)
    (conditions : Conditions) : Steps map.cleared (map.labelUnder conditions).2 :=
  (steps_of_mem_moments hids conditions map.cleared
    (List.mem_of_head? (head?_moments conditions map))).2

end

end LabelMap

end LabelPlacement
