import LabelPlacement.Proofs.Retries

/-!
# Default targets

A loop that is added without a target goes back to the last command in front of it that it accepts,
and it is refused where there is none. The target stays the nearest one: commands are added behind
the loop, removing others brings nothing between the two, and the parameters that can be changed of
a command do not decide which loops accept it (`Sequence.Leaves`). Numbers are enough to follow the
three of them, because they increase along the sequence in whatever way it was made
(`Sequence.numbered_reached`).
-/

namespace LabelPlacement

/-- A setting changes a parameter of a loop or its target. -/
theorem Setting.exists_loop_of_change? {α : Type} [Scalar α] {setting : Setting α}
    {command changed : Command α} (hchanged : setting.change? command = some (.ok changed)) :
    ∃ loop other, command = .loop loop ∧ changed = .loop other ∧
      other.kind.bare = loop.kind.bare ∧ (setting.IsParameter → other.target = loop.target) := by
  by_cases hsetting : setting.IsParameter
  · obtain ⟨loop, kind, rfl, rfl, hbare, -⟩ := change?_eq_ok hsetting hchanged
    exact ⟨loop, _, rfl, rfl, hbare, fun _ => rfl⟩
  · obtain ⟨goal, rfl⟩ : ∃ goal, setting = .target goal := by
      rw [IsParameter, not_forall_not] at hsetting
      exact hsetting
    cases command with
    | loop loop =>
      cases hchanged
      exact ⟨loop, _, rfl, rfl, rfl, fun hparameter => absurd hparameter hsetting⟩
    | line | point | area | leader | failure => cases hchanged

namespace Sequence

variable {α : Type} {sequence : Sequence α}

/-! ### Numbers -/

theorem Numbered.of_sublist {other : Sequence α} (hnumbered : sequence.Numbered)
    (hids : (other.entries.map (·.id)).Sublist (sequence.entries.map (·.id)))
    (hnext : other.nextId = sequence.nextId) : other.Numbered := by
  refine ⟨?_, fun entry hmem => ?_⟩
  · have hincreasing : (sequence.entries.map (·.id)).Pairwise (· < ·) :=
      List.pairwise_map.mpr hnumbered.increasing
    exact List.pairwise_map.mp (hincreasing.sublist hids)
  · obtain ⟨original, horiginal, hid⟩ :=
      List.mem_map.mp (hids.subset (List.mem_map_of_mem hmem))
    rw [hnext, ← hid]
    exact hnumbered.below original horiginal

theorem Numbered.position_lt (hnumbered : sequence.Numbered) {position other : Nat}
    {first second : Entry α} (hfirst : sequence.entryAt? position = some first)
    (hsecond : sequence.entryAt? other = some second) (hid : first.id < second.id) :
    position < other := by
  obtain ⟨hposition, rfl⟩ := List.getElem?_eq_some_iff.mp hfirst
  obtain ⟨hother, rfl⟩ := List.getElem?_eq_some_iff.mp hsecond
  by_contra hle
  obtain rfl | hlt := Nat.eq_or_lt_of_le (Nat.le_of_not_lt hle)
  · exact absurd hid (Nat.lt_irrefl _)
  · have := List.pairwise_iff_getElem.mp hnumbered.increasing other position hother hposition hlt
    omega

theorem Numbered.id_lt (hnumbered : sequence.Numbered) {position other : Nat}
    {first second : Entry α} (hfirst : sequence.entryAt? position = some first)
    (hsecond : sequence.entryAt? other = some second) (hlt : position < other) :
    first.id < second.id := by
  obtain ⟨hposition, rfl⟩ := List.getElem?_eq_some_iff.mp hfirst
  obtain ⟨hother, rfl⟩ := List.getElem?_eq_some_iff.mp hsecond
  exact List.pairwise_iff_getElem.mp hnumbered.increasing position other hposition hother hlt

/-- A command is found by its number where it stands. -/
theorem Numbered.position?_eq (hnumbered : sequence.Numbered) {position : Nat} {entry : Entry α}
    (hentry : sequence.entryAt? position = some entry) :
    sequence.position? entry.id = some position := by
  obtain ⟨hposition, rfl⟩ := List.getElem?_eq_some_iff.mp hentry
  rw [position?, List.findIdx?_eq_some_iff_getElem]
  refine ⟨hposition, beq_self_eq_true _, fun earlier hearlier => ?_⟩
  have hless := List.pairwise_iff_getElem.mp hnumbered.increasing earlier position
    (by omega) hposition hearlier
  rw [beq_iff_eq]
  exact Nat.ne_of_lt hless

theorem exists_push_of_addLoop_eq_ok {command : Command α} {target : Option Nat}
    {changed : Sequence α} (hchanged : sequence.addLoop command target = .ok changed) :
    ∃ added, changed = sequence.push added := by
  cases command with
  | line | point | area | leader | failure => cases hchanged
  | loop loop =>
    obtain ⟨resolved, -, hchanged⟩ := exists_of_bind_eq_ok hchanged
    cases hchanged
    exact ⟨_, rfl⟩

theorem exists_push_of_add_eq_ok {command : Command α} {changed : Sequence α}
    (hchanged : sequence.add command = .ok changed) : ∃ added, changed = sequence.push added := by
  cases command with
  | loop loop =>
    rw [Sequence.add] at hchanged
    exact exists_push_of_addLoop_eq_ok hchanged
  | line | point | area | leader | failure =>
    cases hchanged
    exact ⟨_, rfl⟩

theorem exists_replace_of_retarget {loopId target : Nat} {changed : Sequence α}
    (hchanged : sequence.retarget loopId target = .ok changed) :
    ∃ loop, sequence.find? loopId = some (.loop loop) ∧
      changed = sequence.replace loopId (.loop { loop with target := some target }) := by
  rw [retarget] at hchanged
  split at hchanged
  · cases hchanged
  · split at hchanged
    · rename_i loop _ hloop
      split at hchanged
      · cases hchanged
        exact ⟨loop, hloop, rfl⟩
      · cases hchanged
    · cases hchanged
    · cases hchanged

theorem map_id_copyFrom {copy : Nat → Command α → Except (LabelingError α) (Command α)}
    {position : Nat} {entries copied : List (Entry α)}
    (hcopied : copyFrom copy position entries = .ok copied) :
    copied.map (·.id) = entries.map (·.id) := by
  induction entries generalizing position copied with
  | nil => cases hcopied; rfl
  | cons entry rest ih =>
    obtain ⟨command, -, hcopied⟩ := exists_of_bind_eq_ok hcopied
    obtain ⟨others, hothers, hcopied⟩ := exists_of_bind_eq_ok hcopied
    cases hcopied
    rw [List.map_cons, List.map_cons, ih hothers]

variable [Scalar α]

theorem exists_replace_of_set? {id : Nat} {setting : Setting α} {changed : Sequence α}
    (hchanged : sequence.set? id setting = some (some (.ok changed))) :
    ∃ command replacement, sequence.find? id = some command ∧
      setting.change? command = some (.ok replacement) ∧
      changed = sequence.replace id replacement := by
  obtain ⟨command, hfound, hchanged⟩ := Option.map_eq_some_iff.mp hchanged
  obtain ⟨attempt, hattempt, hchanged⟩ := Option.map_eq_some_iff.mp hchanged
  obtain ⟨replacement, rfl, hchanged⟩ := exists_of_bind_eq_ok hchanged
  cases hchanged
  exact ⟨command, replacement, hfound, hattempt, rfl⟩

omit [Scalar α] in
/-- Replacing a command leaves the numbers as they are. -/
theorem Numbered.replace (hnumbered : sequence.Numbered) (id : Nat) (command : Command α) :
    (sequence.replace id command).Numbered := by
  refine hnumbered.of_sublist ?_ rfl
  rw [Sequence.replace, map_id_replaceIn]

omit [Scalar α] in
theorem Edit.numbered_attempt {outcome : Except (LabelingError α) (Sequence α)}
    (hnumbered : sequence.Numbered)
    (hmade : ∀ changed, outcome = .ok changed → changed.Numbered) :
    (attempt sequence outcome).2.Numbered := by
  cases outcome with
  | ok changed => exact hmade changed rfl
  | error error => exact hnumbered

/-- **One edit**, of whatever kind. -/
theorem Edit.numbered_apply (hnumbered : sequence.Numbered) (edit : Edit α) :
    (edit.apply sequence).Numbered := by
  cases edit with
  | add command =>
    refine numbered_attempt hnumbered fun _ hchanged => ?_
    obtain ⟨added, rfl⟩ := exists_push_of_add_eq_ok hchanged
    exact hnumbered.push added
  | addLoop command target =>
    refine numbered_attempt hnumbered fun _ hchanged => ?_
    obtain ⟨added, rfl⟩ := exists_push_of_addLoop_eq_ok hchanged
    exact hnumbered.push added
  | retarget loop target =>
    refine numbered_attempt hnumbered fun _ hchanged => ?_
    obtain ⟨loop, -, rfl⟩ := exists_replace_of_retarget hchanged
    exact hnumbered.replace _ _
  | remove id => exact hnumbered.of_sublist (List.eraseP_sublist.map _) rfl
  | copy duplicate =>
    refine numbered_attempt hnumbered fun _ hchanged => ?_
    obtain ⟨entries, hentries, hchanged⟩ := exists_of_bind_eq_ok hchanged
    cases hchanged
    refine hnumbered.of_sublist ?_ rfl
    rw [map_id_copyFrom hentries]
  | set id setting =>
    rw [apply, perform]
    split
    · rename_i outcome houtcome
      refine numbered_attempt hnumbered fun changed hchanged => ?_
      rw [hchanged] at houtcome
      obtain ⟨command, replacement, -, -, rfl⟩ := exists_replace_of_set? houtcome
      exact hnumbered.replace _ _
    · exact hnumbered

/-- What can be done with a sequence from outside: editing it, or putting any other command in the
place of one. -/
inductive Operation (α : Type)
  | edit (change : Edit α)
  | assign (id : Nat) (command : Command α)

/-- The sequence after an operation. -/
def Operation.apply (sequence : Sequence α) : Operation α → Sequence α
  | .edit change => change.apply sequence
  | .assign id command => sequence.replace id command

/-- The sequence that operations make of the empty one. -/
def reached (operations : List (Operation α)) : Sequence α :=
  operations.foldl Operation.apply empty

/-- **All operations.** -/
theorem numbered_reached (operations : List (Operation α)) : (reached operations).Numbered := by
  have hfold : ∀ {sequence : Sequence α}, sequence.Numbered →
      (operations.foldl Operation.apply sequence).Numbered := by
    induction operations with
    | nil => exact id
    | cons operation rest ih =>
      intro sequence hnumbered
      refine ih ?_
      cases operation with
      | edit change => exact change.numbered_apply hnumbered
      | assign id command => exact hnumbered.replace id command
  exact hfold sound_empty.numbered

/-! ### What later edits leave alone -/

/-- An edit that leaves the target of a loop to it: neither of the two is removed, and the loop is
given no other target. Anything may be added, and everything else may be removed and changed. -/
def Edit.Spares (loop target : Nat) : Edit α → Prop
  | add _ | addLoop .. => True
  | retarget other _ => other ≠ loop
  | remove id => id ≠ loop ∧ id ≠ target
  | copy duplicate =>
    ∀ position command copied, duplicate position command = .ok copied → copied = command
  | set id setting => id = loop → setting.IsParameter

/-- How a sequence with a loop and a target may differ from an earlier one: both are there still,
but for parameters, and the loop goes back where it went. -/
structure Leaves (loop target : Nat) (before after : Sequence α) : Prop
    extends before.Continues after where
  keepsTarget : ∀ goal ∈ before.entries, goal.id = target →
    ∃ kept ∈ after.entries, kept.id = target ∧ kept.command.bare = goal.command.bare
  keepsLoop : ∀ found, ⟨loop, .loop found⟩ ∈ before.entries →
    ∃ kept, ⟨loop, .loop kept⟩ ∈ after.entries ∧ kept.target = found.target ∧
      kept.kind.bare = found.kind.bare

variable {loop target : Nat}

theorem Leaves.of_subset {after : Sequence α} (hcontinues : sequence.Continues after)
    (hkept : ∀ entry ∈ sequence.entries, entry.id = loop ∨ entry.id = target →
      entry ∈ after.entries) : Leaves loop target sequence after where
  toContinues := hcontinues
  keepsTarget goal hmem hid := ⟨goal, hkept goal hmem (Or.inr hid), hid, rfl⟩
  keepsLoop found hmem := ⟨found, hkept _ hmem (Or.inl rfl), rfl, rfl⟩

theorem Leaves.refl (sequence : Sequence α) : Leaves loop target sequence sequence :=
  .of_subset (.refl sequence) fun _ hmem _ => hmem

theorem leaves_push (sequence : Sequence α) (command : Command α) :
    Leaves loop target sequence (sequence.push command) :=
  .of_subset (continues_push sequence command) fun _ hmem _ => List.mem_append_left _ hmem

omit [Scalar α] in
theorem mem_replaceIn_of_mem {id : Nat} {command : Command α} {entries : List (Entry α)}
    {entry : Entry α} (hmem : entry ∈ entries) :
    entry ∈ replaceIn id command entries ∨
      entry.id = id ∧ ⟨id, command⟩ ∈ replaceIn id command entries := by
  induction entries with
  | nil => cases hmem
  | cons first rest ih =>
    rw [replaceIn]
    split
    · rename_i hid
      obtain rfl | hrest := List.mem_cons.mp hmem
      · refine Or.inr ⟨hid, ?_⟩
        rw [← hid]
        exact List.mem_cons_self
      · exact Or.inl (List.mem_cons_of_mem _ hrest)
    · obtain rfl | hrest := List.mem_cons.mp hmem
      · exact Or.inl List.mem_cons_self
      · exact (ih hrest).imp (List.mem_cons_of_mem _) (And.imp_right (List.mem_cons_of_mem _))

/-- A loop may be replaced by one that differs in its parameters only; of another loop than the
given one, the target may differ as well. -/
theorem leaves_replace (hnumbered : sequence.Numbered) {id : Nat} {found changed : Loop α}
    (hfound : sequence.find? id = some (.loop found))
    (hbare : changed.kind.bare = found.kind.bare)
    (hspared : id = loop → changed.target = found.target) :
    Leaves loop target sequence (sequence.replace id (.loop changed)) := by
  have hsame : ∀ original ∈ sequence.entries, original.id = id →
      original.command.bare = (Command.loop changed).bare := by
    refine hnumbered.bare_eq_of_find? hfound _ ?_
    rw [Command.bare, Command.bare, hbare]
  refine ⟨continues_replace hsame, fun goal hmem hid => ?_, fun other hmem => ?_⟩
  · obtain hkept | ⟨hgoal, hnew⟩ := mem_replaceIn_of_mem hmem
    · exact ⟨goal, hkept, hid, rfl⟩
    · exact ⟨_, hnew, hgoal.symm.trans hid, (hsame goal hmem hgoal).symm⟩
  · obtain hkept | ⟨hid, hnew⟩ := mem_replaceIn_of_mem hmem
    · exact ⟨other, hkept, rfl, rfl⟩
    · obtain rfl : loop = id := hid
      cases hnumbered.eq_of_id_eq hmem (find?_eq_some hfound) rfl
      exact ⟨changed, hnew, hspared rfl, hbare⟩

omit [Scalar α] in
theorem mem_remove_of_ne {id : Nat} {entry : Entry α} (hmem : entry ∈ sequence.entries)
    (hid : id ≠ entry.id) : entry ∈ (sequence.remove id).2.entries :=
  (List.mem_eraseP_of_neg (by simpa using Ne.symm hid)).mpr hmem

theorem Edit.leaves_attempt {outcome : Except (LabelingError α) (Sequence α)}
    (hmade : ∀ changed, outcome = .ok changed → Leaves loop target sequence changed) :
    Leaves loop target sequence (attempt sequence outcome).2 := by
  cases outcome with
  | ok changed => exact hmade changed rfl
  | error error => exact .refl sequence

/-- **One edit** that spares the target. -/
theorem Edit.Spares.leaves {edit : Edit α} (hspares : edit.Spares loop target)
    (hnumbered : sequence.Numbered) : Leaves loop target sequence (edit.apply sequence) := by
  cases edit with
  | add command =>
    refine leaves_attempt fun _ hchanged => ?_
    obtain ⟨added, rfl⟩ := exists_push_of_add_eq_ok hchanged
    exact leaves_push sequence added
  | addLoop command goal =>
    refine leaves_attempt fun _ hchanged => ?_
    obtain ⟨added, rfl⟩ := exists_push_of_addLoop_eq_ok hchanged
    exact leaves_push sequence added
  | retarget other goal =>
    refine leaves_attempt fun _ hchanged => ?_
    obtain ⟨found, hfound, rfl⟩ := exists_replace_of_retarget hchanged
    exact leaves_replace hnumbered hfound rfl fun hsame => absurd hsame hspares
  | remove id =>
    obtain ⟨hloop, htarget⟩ := hspares
    refine .of_subset ⟨Nat.le_refl _, fun entry hmem _ => ?_⟩ fun entry hmem hid => ?_
    · exact ⟨entry, List.eraseP_sublist.subset hmem, rfl, rfl⟩
    · refine mem_remove_of_ne hmem ?_
      obtain hid | hid := hid
      · rwa [hid]
      · rwa [hid]
  | copy duplicate =>
    refine leaves_attempt fun _ hchanged => ?_
    obtain ⟨entries, hentries, hchanged⟩ := exists_of_bind_eq_ok hchanged
    cases hchanged
    rw [copyFrom_eq_self hspares hentries]
    exact .refl sequence
  | set id setting =>
    rw [apply, perform]
    split
    · rename_i outcome houtcome
      refine leaves_attempt fun changed hchanged => ?_
      rw [hchanged] at houtcome
      obtain ⟨command, replacement, hfound, hchange, rfl⟩ := exists_replace_of_set? houtcome
      obtain ⟨found, other, rfl, rfl, hbare, htarget⟩ := Setting.exists_loop_of_change? hchange
      exact leaves_replace hnumbered hfound hbare fun hsame => htarget (hspares hsame)
    · exact .refl sequence

/-! ### The nearest target -/

/-- A loop goes back to a command that it accepts, and it accepts none of those between the two.
The three are told by their numbers. -/
structure GoesToNearest (sequence : Sequence α) (loop target : Nat) : Prop where
  before : target < loop
  exists_loop : ∃ found, ⟨loop, .loop found⟩ ∈ sequence.entries ∧ found.target = some target ∧
    (∃ goal ∈ sequence.entries, goal.id = target ∧ found.kind.accepts goal.command = true) ∧
    ∀ between ∈ sequence.entries, target < between.id → between.id < loop →
      found.kind.accepts between.command = false

theorem GoesToNearest.of_leaves {after : Sequence α} (hnumbered : sequence.Numbered)
    (hnearest : sequence.GoesToNearest loop target)
    (hleaves : Leaves loop target sequence after) : after.GoesToNearest loop target := by
  obtain ⟨hbefore, found, hfound, htarget, ⟨goal, hgoal, hid, haccepts⟩, hnone⟩ := hnearest
  obtain ⟨kept, hkept, hsame, hbare⟩ := hleaves.keepsLoop found hfound
  have hcongr : ∀ {command other : Command α}, command.bare = other.bare →
      kept.kind.accepts command = found.kind.accepts other := by
    intro command other hcommand
    rw [← kept.kind.bare_accepts, hbare, found.kind.bare_accepts]
    exact found.kind.accepts_congr hcommand
  refine ⟨hbefore, kept, hkept, hsame.trans htarget, ?_, fun between hmem hafter hearlier => ?_⟩
  · obtain ⟨goal', hgoal', hid', hbare'⟩ := hleaves.keepsTarget goal hgoal hid
    exact ⟨goal', hgoal', hid', (hcongr hbare').trans haccepts⟩
  · -- What stands between the two has a number that was given out before the loop was added.
    obtain ⟨original, horiginal, hid, hbare⟩ := hleaves.named between hmem
      (Nat.lt_trans hearlier (hnumbered.below _ hfound))
    rw [hcongr hbare.symm]
    exact hnone original horiginal (hid ▸ hafter) (hid ▸ hearlier)

/-- **All edits** that spare the target. -/
theorem GoesToNearest.foldl (hnumbered : sequence.Numbered)
    (hnearest : sequence.GoesToNearest loop target) {edits : List (Edit α)}
    (hspares : ∀ edit ∈ edits, edit.Spares loop target) :
    (edits.foldl Edit.apply sequence).Numbered ∧
      (edits.foldl Edit.apply sequence).GoesToNearest loop target := by
  induction edits generalizing sequence with
  | nil => exact ⟨hnumbered, hnearest⟩
  | cons edit rest ih =>
    exact ih (edit.numbered_apply hnumbered)
      (hnearest.of_leaves hnumbered ((hspares edit List.mem_cons_self).leaves hnumbered))
      fun edit hmem => hspares edit (List.mem_cons_of_mem _ hmem)

omit [Scalar α] in
/-- Where numbers increase, what is told by numbers is told by positions. -/
theorem GoesToNearest.exists_loopsBack (hnumbered : sequence.Numbered)
    (hnearest : sequence.GoesToNearest loop target) :
    ∃ position found declared goal, sequence.position? loop = some position ∧
      sequence.entryAt? position = some ⟨loop, .loop found⟩ ∧
      sequence.position? target = some declared ∧ goal.id = target ∧
      sequence.LoopsBack position found declared goal := by
  obtain ⟨hbefore, found, hfound, htarget, ⟨goal, hgoal, rfl, haccepts⟩, hnone⟩ := hnearest
  obtain ⟨position, hposition⟩ := List.getElem?_of_mem hfound
  obtain ⟨declared, hdeclared⟩ := List.getElem?_of_mem hgoal
  refine ⟨position, found, declared, goal, hnumbered.position?_eq hposition, hposition,
    hnumbered.position?_eq hdeclared, rfl, ⟨?_, hdeclared, htarget, haccepts, ?_⟩⟩
  · exact hnumbered.position_lt hdeclared hposition hbefore
  · intro between other hafter hearlier hother
    exact hnone other (List.mem_of_getElem? hother) (hnumbered.id_lt hdeclared hother hafter)
      (hnumbered.id_lt hother hposition hearlier)

omit [Scalar α] in
theorem LoopsBack.goesToNearest (hnumbered : sequence.Numbered) {found : Loop α} {declared : Nat}
    {goal : Entry α} (hback : sequence.LoopsBack sequence.length found declared goal) :
    (sequence.push (.loop found)).GoesToNearest sequence.nextId goal.id := by
  have hgoal : goal ∈ sequence.entries := List.mem_of_getElem? hback.found
  refine ⟨hnumbered.below goal hgoal, found, ?_, hback.target,
    ⟨goal, List.mem_append_left _ hgoal, rfl, hback.accepted⟩, fun between hmem hafter hbelow => ?_⟩
  · exact List.mem_append_right _ (List.mem_singleton_self _)
  · obtain hold | hnew := List.mem_append.mp hmem
    · obtain ⟨position, hposition⟩ := List.getElem?_of_mem hold
      exact hback.last position between (hnumbered.position_lt hback.found hposition hafter)
        (lt_length_of_entryAt? hposition) hposition
    · rw [List.mem_singleton.mp hnew] at hbelow
      exact absurd hbelow (Nat.lt_irrefl _)

/-! ### Loops without a target -/

omit [Scalar α] in
theorem defaultTarget?_eq_none_iff {kind : LoopKind α} :
    sequence.defaultTarget? kind = none ↔
      ∀ entry ∈ sequence.entries, kind.accepts entry.command = false := by
  rw [defaultTarget?, Option.map_eq_none_iff, List.find?_eq_none]
  simp only [List.mem_reverse, Bool.not_eq_true]

omit [Scalar α] in
/-- A loop that is added without a target gets the default one, if there is any. -/
theorem addLoop_none {found : Loop α} (hreset : found.kind.isReset = false) :
    sequence.addLoop (.loop found) none =
      match sequence.defaultTarget? found.kind with
      | none => .error .noPreviousCommand
      | some target => .ok (sequence.push (.loop { found with target := some target })) := by
  have hneeds : found.kind.needsTarget = true := by rw [LoopKind.needsTarget, hreset]; rfl
  rw [addLoop, resolveTarget, if_pos hneeds]
  cases sequence.defaultTarget? found.kind <;> rfl

/-- **Default targets.** In a sequence that operations have made of the empty one, let a loop be
added that does more than return to the declared style and names no target. It is refused if and
only if the sequence has no command that it accepts; otherwise its target is the last one that it
accepts. And whatever edits follow that spare the target, the loop stays where it is found by its
number, goes back to the same command in front of it, and accepts no command between the two. -/
theorem default_target_stays_nearest (operations : List (Operation α)) {found : Loop α}
    (hreset : found.kind.isReset = false) (hfree : found.target = none) :
    let sequence := reached operations
    sequence.addLoop (.loop found) none = sequence.add (.loop found) ∧
    ((∃ changed, sequence.add (.loop found) = .ok changed) ↔
      ∃ entry ∈ sequence.entries, found.kind.accepts entry.command = true) ∧
    ∀ changed, sequence.add (.loop found) = .ok changed →
      ∃ declared goal, changed = sequence.push (.loop { found with target := some goal.id }) ∧
        sequence.LoopsBack sequence.length { found with target := some goal.id } declared goal ∧
        ∀ later : List (Edit α), (∀ edit ∈ later, edit.Spares sequence.nextId goal.id) →
          let final := later.foldl Edit.apply changed
          ∃ position loop start target, final.position? sequence.nextId = some position ∧
            final.entryAt? position = some ⟨sequence.nextId, .loop loop⟩ ∧
            final.position? goal.id = some start ∧ target.id = goal.id ∧
            final.LoopsBack position loop start target := by
  intro sequence
  have hadd : sequence.addLoop (.loop found) none = sequence.add (.loop found) := by
    rw [Sequence.add, hfree]
  refine ⟨hadd, ?_, fun changed hchanged => ?_⟩
  · rw [← hadd, addLoop_none hreset]
    cases hdefault : sequence.defaultTarget? found.kind with
    | none =>
      have hnone := defaultTarget?_eq_none_iff.mp hdefault
      constructor
      · rintro ⟨changed, hchanged⟩
        cases hchanged
      · rintro ⟨entry, hmem, haccepts⟩
        rw [hnone entry hmem] at haccepts
        cases haccepts
    | some target =>
      obtain ⟨declared, goal, hback⟩ := loopsBack_of_defaultTarget? hdefault
      exact ⟨fun _ => ⟨goal, List.mem_of_getElem? hback.found, hback.accepted⟩,
        fun _ => ⟨_, rfl⟩⟩
  · rw [← hadd, addLoop_none hreset] at hchanged
    cases hdefault : sequence.defaultTarget? found.kind with
    | none => rw [hdefault] at hchanged; cases hchanged
    | some target =>
      rw [hdefault] at hchanged
      cases hchanged
      obtain ⟨declared, goal, hback⟩ := loopsBack_of_defaultTarget? hdefault
      obtain rfl : target = goal.id := Option.some.inj hback.target
      have hnumbered : sequence.Numbered := numbered_reached operations
      have hback : sequence.LoopsBack sequence.length { found with target := some goal.id }
          declared goal := ⟨hback.before, hback.found, rfl, hback.accepted, hback.last⟩
      refine ⟨declared, goal, rfl, hback, fun later hspares => ?_⟩
      obtain ⟨hfinal, hnearest⟩ :=
        (hback.goesToNearest hnumbered).foldl (hnumbered.push _) hspares
      exact hnearest.exists_loopsBack hfinal

/-- A loop over the one buffer passes over a loop over the other one, to the placement in front of
it. There it still goes back to once the other loop has been removed and a placement been added. -/
theorem feature_loop_passes_label_loop :
    let buffers (buffer : BufferKind) : Loop Rat := ⟨.bufferSize buffer 2 .reduce, none⟩
    let sequence := reached
      [.edit (.add (.point ⟨[.north], 0⟩)), .edit (.add (.loop (buffers .label)))]
    let later : List (Edit Rat) := [.remove 2, .add (.point ⟨[.east], 0⟩)]
    (buffers .feature).kind.isReset = false ∧ (buffers .feature).target = none ∧
      ∃ changed, sequence.add (.loop (buffers .feature)) = .ok changed ∧
        ∃ position loop start target,
          (later.foldl Edit.apply changed).position? 3 = some position ∧
          (later.foldl Edit.apply changed).entryAt? position = some ⟨3, .loop loop⟩ ∧
          (later.foldl Edit.apply changed).position? 1 = some start ∧ target.id = 1 ∧
          (later.foldl Edit.apply changed).LoopsBack position loop start target := by
  intro buffers sequence later
  have hsequence : sequence =
      ⟨[⟨1, .point ⟨[.north], 0⟩⟩, ⟨2, .loop { buffers .label with target := some 1 }⟩], 3⟩ := rfl
  have hadded : sequence.add (.loop (buffers .feature)) =
      .ok (sequence.push (.loop { buffers .feature with target := some 1 })) := by
    rw [hsequence]
    rfl
  have hreset : (buffers .feature).kind.isReset = false := rfl
  obtain ⟨-, -, hkept⟩ := default_target_stays_nearest
    [.edit (.add (.point ⟨[.north], 0⟩)), .edit (.add (.loop (buffers .label)))] hreset rfl
  obtain ⟨declared, goal, hpushed, -, hlater⟩ := hkept _ hadded
  have hgoal : goal.id = 1 := by
    have hlast := congrArg (·.entries.getLast?.map Entry.command) hpushed
    simpa [push] using hlast.symm
  have hspares : ∀ edit ∈ later, edit.Spares sequence.nextId goal.id := by
    rw [hgoal, hsequence]
    simp [later, Edit.Spares]
  have hfinal := hlater later hspares
  rw [hgoal, hsequence] at hfinal
  exact ⟨rfl, rfl, _, hadded, hfinal⟩

end Sequence

end LabelPlacement
