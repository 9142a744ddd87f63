import Mathlib.Data.List.Nodup
import LabelPlacement.Proofs.Exact
import LabelPlacement.Proofs.Parameters

/-!
# Editing a sequence

Sequences are made by edits of the empty one: commands are added, loops get other targets, commands
are removed and copied, and parameters are changed. Whatever the edits are and whether they are
refused or not, the numbers of the commands increase and are not given out twice, and every loop is
sound (`Sequence.LoopSound`): its parameters are in range, it has the target that it needs, and the
target, as long as it is there, lies in front of the loop and suits it.
-/

namespace LabelPlacement

variable {α : Type}

/-! ### Sound sequences -/

namespace Sequence

/-- A loop of a number in a sequence is as edits leave it: its parameters are in range, it has the
target that it needs, and the target comes before the loop and suits it while it is there. -/
structure LoopSound [Scalar α] (sequence : Sequence α) (id : Nat) (loop : Loop α) : Prop where
  inRange : loop.kind.InRange
  targeted : loop.kind.isReset = false → loop.target.isSome = true
  before : ∀ target, loop.target = some target → target < id
  suits : ∀ target, loop.target = some target → ∀ goal ∈ sequence.entries, goal.id = target →
    loop.kind.accepts goal.command = true

/-- The numbers of the commands increase and are below the next one. -/
structure Numbered (sequence : Sequence α) : Prop where
  increasing : sequence.entries.Pairwise fun first second => first.id < second.id
  below : ∀ entry ∈ sequence.entries, entry.id < sequence.nextId

/-- A sequence as edits leave it: the numbers of its commands increase and are below the next one,
and its loops are sound. -/
structure Sound [Scalar α] (sequence : Sequence α) : Prop where
  increasing : sequence.entries.Pairwise fun first second => first.id < second.id
  below : ∀ entry ∈ sequence.entries, entry.id < sequence.nextId
  loops : ∀ entry ∈ sequence.entries, ∀ loop, entry.command = .loop loop →
    sequence.LoopSound entry.id loop

/-- How a sequence may differ from an earlier one: a number given out by then still stands for the
command it stood for, or for none. -/
structure Continues [Scalar α] (before after : Sequence α) : Prop where
  nextId : before.nextId ≤ after.nextId
  named : ∀ entry ∈ after.entries, entry.id < before.nextId →
    ∃ original ∈ before.entries, original.id = entry.id ∧
      original.command.bare = entry.command.bare

variable [Scalar α] {sequence : Sequence α}

theorem sound_empty : (empty : Sequence α).Sound :=
  ⟨.nil, by simp [empty], by simp [empty]⟩

theorem Continues.refl (sequence : Sequence α) : sequence.Continues sequence :=
  ⟨Nat.le_refl _, fun entry hmem _ => ⟨entry, hmem, rfl, rfl⟩⟩

theorem Continues.trans {first second third : Sequence α} (hleft : first.Continues second)
    (hright : second.Continues third) : first.Continues third := by
  refine ⟨Nat.le_trans hleft.nextId hright.nextId, fun entry hmem hbelow => ?_⟩
  obtain ⟨middle, hmiddle, hid, hbare⟩ :=
    hright.named entry hmem (Nat.lt_of_lt_of_le hbelow hleft.nextId)
  obtain ⟨original, horiginal, hfirst, hsame⟩ := hleft.named middle hmiddle (hid ▸ hbelow)
  exact ⟨original, horiginal, hfirst.trans hid, hsame.trans hbare⟩

omit [Scalar α] in
/-- A number stands for one command at most. -/
theorem Numbered.eq_of_id_eq (hnumbered : sequence.Numbered) {first second : Entry α}
    (hfirst : first ∈ sequence.entries) (hsecond : second ∈ sequence.entries)
    (hid : first.id = second.id) : first = second := by
  have hids : (sequence.entries.map (·.id)).Nodup :=
    List.pairwise_map.mpr (hnumbered.increasing.imp Nat.ne_of_lt)
  exact List.inj_on_of_nodup_map hids hfirst hsecond hid

theorem Sound.numbered (hsound : sequence.Sound) : sequence.Numbered :=
  ⟨hsound.increasing, hsound.below⟩

theorem Sound.eq_of_id_eq (hsound : sequence.Sound) {first second : Entry α}
    (hfirst : first ∈ sequence.entries) (hsecond : second ∈ sequence.entries)
    (hid : first.id = second.id) : first = second :=
  hsound.numbered.eq_of_id_eq hfirst hsecond hid

omit [Scalar α] in
theorem find?_eq_some {id : Nat} {command : Command α}
    (hfound : sequence.find? id = some command) : ⟨id, command⟩ ∈ sequence.entries := by
  obtain ⟨entry, hentry, rfl⟩ := Option.map_eq_some_iff.mp hfound
  have hid : entry.id = id := by simpa using List.find?_some hentry
  rw [← hid]
  exact List.mem_of_find?_eq_some hentry

/-! ### Adding commands -/

theorem LoopSound.push {id : Nat} {loop : Loop α} (hloop : sequence.LoopSound id loop)
    (hid : id ≤ sequence.nextId) (command : Command α) :
    (sequence.push command).LoopSound id loop := by
  refine ⟨hloop.inRange, hloop.targeted, hloop.before, fun target htarget goal hmem hgoal => ?_⟩
  obtain hmem | hnew := List.mem_append.mp hmem
  · exact hloop.suits target htarget goal hmem hgoal
  · rw [List.mem_singleton.mp hnew] at hgoal
    have hbefore := hloop.before target htarget
    simp only at hgoal
    omega

omit [Scalar α] in
theorem Numbered.push (hnumbered : sequence.Numbered) (command : Command α) :
    (sequence.push command).Numbered := by
  refine ⟨?_, fun entry hmem => ?_⟩
  · refine List.pairwise_append.mpr ⟨hnumbered.increasing, List.pairwise_singleton _ _, ?_⟩
    intro entry hmem added hadded
    rw [List.mem_singleton.mp hadded]
    exact hnumbered.below entry hmem
  · obtain hold | hnew := List.mem_append.mp hmem
    · exact Nat.lt_succ_of_lt (hnumbered.below entry hold)
    · rw [List.mem_singleton.mp hnew]
      exact Nat.lt_succ_self _

theorem Sound.push (hsound : sequence.Sound) {command : Command α}
    (hcommand : ∀ loop, command = .loop loop → sequence.LoopSound sequence.nextId loop) :
    (sequence.push command).Sound := by
  have hnumbered := hsound.numbered.push command
  refine ⟨hnumbered.increasing, hnumbered.below, fun entry hmem loop hloop => ?_⟩
  obtain hmem | hnew := List.mem_append.mp hmem
  · exact (hsound.loops entry hmem loop hloop).push (Nat.le_of_lt (hsound.below entry hmem)) _
  · rw [List.mem_singleton.mp hnew] at hloop ⊢
    exact (hcommand loop hloop).push (Nat.le_refl _) _

theorem continues_push (sequence : Sequence α) (command : Command α) :
    sequence.Continues (sequence.push command) := by
  refine ⟨Nat.le_succ _, fun entry hmem hbelow => ?_⟩
  obtain hmem | hnew := List.mem_append.mp hmem
  · exact ⟨entry, hmem, rfl, rfl⟩
  · rw [List.mem_singleton.mp hnew] at hbelow
    exact absurd hbelow (Nat.lt_irrefl _)

omit [Scalar α] in
/-- The target that a new loop gets is that of a command which suits it. -/
theorem exists_of_resolveTarget {kind : LoopKind α} {target resolved : Option Nat}
    (hresolved : sequence.resolveTarget kind target = .ok resolved) :
    (kind.isReset = false → resolved.isSome = true) ∧
      ∀ id, resolved = some id → ∃ goal ∈ sequence.entries, goal.id = id ∧
        kind.accepts goal.command = true := by
  cases target with
  | some id =>
    simp only [resolveTarget] at hresolved
    split at hresolved
    · cases hresolved
    · rename_i command hfound
      split at hresolved
      · rename_i haccepts
        cases hresolved
        refine ⟨fun _ => rfl, fun other hother => ?_⟩
        cases hother
        exact ⟨_, find?_eq_some hfound, rfl, haccepts⟩
      · cases hresolved
  | none =>
    simp only [resolveTarget] at hresolved
    split at hresolved
    · split at hresolved
      · cases hresolved
      · rename_i id hdefault
        cases hresolved
        refine ⟨fun _ => rfl, fun other hother => ?_⟩
        cases hother
        obtain ⟨goal, hgoal, hid⟩ := Option.map_eq_some_iff.mp hdefault
        have haccepts := List.find?_some hgoal
        exact ⟨goal, List.mem_reverse.mp (List.mem_of_find?_eq_some hgoal), hid, haccepts⟩
    · rename_i hneeds
      cases hresolved
      refine ⟨fun hreset => absurd ?_ hneeds, fun id hid => by cases hid⟩
      rw [LoopKind.needsTarget, hreset]
      rfl

theorem exists_push_of_addLoop {command : Command α} {target : Option Nat} {changed : Sequence α}
    (hsound : sequence.Sound) (hrange : command.InRange)
    (hchanged : sequence.addLoop command target = .ok changed) :
    changed.Sound ∧ ∃ added, changed = sequence.push added := by
  cases command with
  | line | point | area | leader | failure => cases hchanged
  | loop loop =>
    obtain ⟨resolved, hresolved, hchanged⟩ := exists_of_bind_eq_ok hchanged
    cases hchanged
    obtain ⟨hneeded, hgoal⟩ := exists_of_resolveTarget hresolved
    refine ⟨hsound.push fun found hfound => ?_, _, rfl⟩
    cases hfound
    refine ⟨hrange, hneeded, fun id hid => ?_, fun id hid goal hmem hgoalId => ?_⟩
    · obtain ⟨goal, hmem, rfl, _⟩ := hgoal id hid
      exact hsound.below goal hmem
    · obtain ⟨suitable, hsuitable, rfl, haccepts⟩ := hgoal id hid
      rwa [hsound.eq_of_id_eq hmem hsuitable hgoalId]

theorem exists_push_of_add {command : Command α} {changed : Sequence α}
    (hsound : sequence.Sound) (hrange : command.InRange)
    (hchanged : sequence.add command = .ok changed) :
    changed.Sound ∧ ∃ added, changed = sequence.push added := by
  cases command with
  | loop loop => exact exists_push_of_addLoop hsound hrange hchanged
  | line | point | area | leader | failure =>
    cases hchanged
    exact ⟨hsound.push (by rintro loop ⟨⟩), _, rfl⟩

/-! ### Changing commands -/

omit [Scalar α] in
theorem mem_replaceIn {id : Nat} {command : Command α} {entries : List (Entry α)}
    {entry : Entry α} (hmem : entry ∈ replaceIn id command entries) :
    entry ∈ entries ∨ entry = ⟨id, command⟩ ∧ ∃ original ∈ entries, original.id = id := by
  induction entries with
  | nil => cases hmem
  | cons first rest ih =>
    rw [replaceIn] at hmem
    split at hmem
    · rename_i hid
      obtain rfl | hrest := List.mem_cons.mp hmem
      · exact Or.inr ⟨by rw [hid], first, List.mem_cons_self, hid⟩
      · exact Or.inl (List.mem_cons_of_mem _ hrest)
    · obtain rfl | hrest := List.mem_cons.mp hmem
      · exact Or.inl List.mem_cons_self
      · obtain hkept | ⟨hnew, original, horiginal, hid⟩ := ih hrest
        · exact Or.inl (List.mem_cons_of_mem _ hkept)
        · exact Or.inr ⟨hnew, original, List.mem_cons_of_mem _ horiginal, hid⟩

omit [Scalar α] in
theorem map_id_replaceIn (id : Nat) (command : Command α) (entries : List (Entry α)) :
    (replaceIn id command entries).map (·.id) = entries.map (·.id) := by
  induction entries with
  | nil => rfl
  | cons first rest ih =>
    rw [replaceIn]
    split
    · rfl
    · rw [List.map_cons, ih, List.map_cons]

/-- A command may be replaced by one that differs in its parameters and its target only. -/
theorem exists_of_mem_replace {id : Nat} {command : Command α}
    (hbare : ∀ original ∈ sequence.entries, original.id = id →
      original.command.bare = command.bare) {entry : Entry α}
    (hmem : entry ∈ (sequence.replace id command).entries) :
    ∃ original ∈ sequence.entries, original.id = entry.id ∧
      original.command.bare = entry.command.bare := by
  obtain hkept | ⟨rfl, original, horiginal, hid⟩ := mem_replaceIn hmem
  · exact ⟨entry, hkept, rfl, rfl⟩
  · exact ⟨original, horiginal, hid, hbare original horiginal hid⟩

theorem LoopSound.of_bare {other : Sequence α} {id : Nat} {loop : Loop α}
    (hloop : sequence.LoopSound id loop)
    (hgoals : ∀ goal ∈ other.entries, ∃ original ∈ sequence.entries, original.id = goal.id ∧
      original.command.bare = goal.command.bare) : other.LoopSound id loop := by
  refine ⟨hloop.inRange, hloop.targeted, hloop.before, fun target htarget goal hmem hgoal => ?_⟩
  obtain ⟨original, horiginal, hid, hbare⟩ := hgoals goal hmem
  rw [← loop.kind.accepts_congr hbare]
  exact hloop.suits target htarget original horiginal (hid.trans hgoal)

theorem Sound.replace (hsound : sequence.Sound) {id : Nat} {command : Command α}
    (hbare : ∀ original ∈ sequence.entries, original.id = id →
      original.command.bare = command.bare)
    (hcommand : ∀ loop, command = .loop loop → sequence.LoopSound id loop) :
    (sequence.replace id command).Sound := by
  have hgoals : ∀ goal ∈ (sequence.replace id command).entries, _ :=
    fun _ hmem => exists_of_mem_replace hbare hmem
  refine ⟨?_, fun entry hmem => ?_, fun entry hmem loop hloop => ?_⟩
  · have hids : ((sequence.replace id command).entries.map (·.id)).Pairwise (· < ·) := by
      rw [Sequence.replace, map_id_replaceIn]
      exact List.pairwise_map.mpr hsound.increasing
    exact List.pairwise_map.mp hids
  · obtain ⟨original, horiginal, hid, _⟩ := hgoals entry hmem
    exact hid ▸ hsound.below original horiginal
  · obtain hkept | ⟨rfl, _⟩ := mem_replaceIn hmem
    · exact (hsound.loops entry hkept loop hloop).of_bare hgoals
    · exact (hcommand loop hloop).of_bare hgoals

theorem continues_replace {id : Nat} {command : Command α}
    (hbare : ∀ original ∈ sequence.entries, original.id = id →
      original.command.bare = command.bare) :
    sequence.Continues (sequence.replace id command) :=
  ⟨Nat.le_refl _, fun _ hmem _ => exists_of_mem_replace hbare hmem⟩

theorem Sound.find?_of_mem (hsound : sequence.Sound) {entry : Entry α}
    (hmem : entry ∈ sequence.entries) : sequence.find? entry.id = some entry.command := by
  cases hfound : sequence.find? entry.id with
  | none =>
    rw [find?, Option.map_eq_none_iff, List.find?_eq_none] at hfound
    exact absurd (beq_self_eq_true entry.id) (hfound entry hmem)
  | some command =>
    rw [← hsound.eq_of_id_eq (find?_eq_some hfound) hmem rfl]

/-- A command that is replaced is the one that its number finds. -/
theorem Numbered.bare_eq_of_find? (hnumbered : sequence.Numbered) {id : Nat} {found : Command α}
    (hfound : sequence.find? id = some found) (command : Command α)
    (hbare : found.bare = command.bare) :
    ∀ original ∈ sequence.entries, original.id = id → original.command.bare = command.bare := by
  intro original horiginal hid
  rw [hnumbered.eq_of_id_eq horiginal (find?_eq_some hfound) hid, ← hbare]

theorem of_retarget {loopId target : Nat} {changed : Sequence α} (hsound : sequence.Sound)
    (hchanged : sequence.retarget loopId target = .ok changed) :
    changed.Sound ∧ sequence.Continues changed := by
  rw [retarget] at hchanged
  split at hchanged
  · cases hchanged
  · rename_i position hposition
    split at hchanged
    · rename_i candidate loop hcandidate hloop
      split at hchanged
      · rename_i haccepts
        cases hchanged
        obtain ⟨hless, hid, -⟩ := List.findIdx?_eq_some_iff_getElem.mp hposition
        obtain ⟨earlier, hearlier, rfl⟩ :=
          List.mem_take_iff_getElem.mp (List.mem_of_find?_eq_some hcandidate)
        have hgoal := List.find?_some hcandidate
        simp only [beq_iff_eq] at hid hgoal
        -- The target is only looked for in front of the loop, where all numbers are smaller.
        have hbefore := List.pairwise_iff_getElem.mp hsound.increasing earlier position
          (by omega) hless (by omega)
        have hbare := hsound.numbered.bare_eq_of_find? hloop
          (.loop { loop with target := some target }) rfl
        have hfound := hsound.loops _ (find?_eq_some hloop) loop rfl
        refine ⟨hsound.replace hbare ?_, continues_replace hbare⟩
        rintro _ ⟨⟩
        refine ⟨hfound.inRange, fun _ => rfl, ?_, ?_⟩
        · rintro _ ⟨⟩
          omega
        · rintro _ ⟨⟩ goal hmem hgoalId
          rwa [hsound.eq_of_id_eq hmem (List.getElem_mem _) (hgoalId.trans hgoal.symm)]
      · cases hchanged
    · cases hchanged
    · cases hchanged

theorem of_set? {id : Nat} {setting : Setting α} {changed : Sequence α} (hsound : sequence.Sound)
    (hsetting : setting.IsParameter)
    (hchanged : sequence.set? id setting = some (some (.ok changed))) :
    changed.Sound ∧ sequence.Continues changed := by
  obtain ⟨command, hfound, hchanged⟩ := Option.map_eq_some_iff.mp hchanged
  obtain ⟨attempt, hattempt, hchanged⟩ := Option.map_eq_some_iff.mp hchanged
  obtain ⟨replacement, rfl, hchanged⟩ := exists_of_bind_eq_ok hchanged
  cases hchanged
  obtain ⟨loop, kind, rfl, rfl, hkind, hrange⟩ := Setting.change?_eq_ok hsetting hattempt
  have hloop := hsound.loops _ (find?_eq_some hfound) loop rfl
  have hbare := hsound.numbered.bare_eq_of_find? hfound (.loop { loop with kind })
    (by rw [Command.bare, Command.bare, hkind])
  refine ⟨hsound.replace hbare ?_, continues_replace hbare⟩
  rintro _ ⟨⟩
  refine ⟨hrange hloop.inRange, fun hreset => hloop.targeted ?_, hloop.before,
    fun target htarget goal hmem hgoal => ?_⟩
  · rwa [← LoopKind.isReset_bare, ← hkind, LoopKind.isReset_bare]
  · rw [← LoopKind.bare_accepts, hkind, LoopKind.bare_accepts]
    exact hloop.suits target htarget goal hmem hgoal

/-! ### Removing and copying commands -/

theorem of_remove (hsound : sequence.Sound) (id : Nat) :
    (sequence.remove id).2.Sound ∧ sequence.Continues (sequence.remove id).2 := by
  have hkept : (sequence.remove id).2.entries.Sublist sequence.entries := List.eraseP_sublist
  have hgoals : ∀ goal ∈ (sequence.remove id).2.entries, ∃ original ∈ sequence.entries,
      original.id = goal.id ∧ original.command.bare = goal.command.bare :=
    fun goal hmem => ⟨goal, hkept.subset hmem, rfl, rfl⟩
  refine ⟨⟨hsound.increasing.sublist hkept, fun entry hmem => ?_, fun entry hmem loop hloop => ?_⟩,
    Nat.le_refl _, fun goal hmem _ => hgoals goal hmem⟩
  · exact hsound.below entry (hkept.subset hmem)
  · exact (hsound.loops entry (hkept.subset hmem) loop hloop).of_bare hgoals

omit [Scalar α] in
theorem remove_of_find?_eq_none {id : Nat} (habsent : sequence.find? id = none) :
    (sequence.remove id).2 = sequence := by
  rw [find?, Option.map_eq_none_iff, List.find?_eq_none] at habsent
  rw [remove, List.eraseP_of_forall_not habsent]

omit [Scalar α] in
theorem copyFrom_eq_self {copy : Nat → Command α → Except (LabelingError α) (Command α)}
    (hcopy : ∀ position command copied, copy position command = .ok copied → copied = command)
    {position : Nat} {entries copied : List (Entry α)}
    (hcopied : copyFrom copy position entries = .ok copied) : copied = entries := by
  induction entries generalizing position copied with
  | nil => cases hcopied; rfl
  | cons entry rest ih =>
    obtain ⟨command, hcommand, hcopied⟩ := exists_of_bind_eq_ok hcopied
    obtain ⟨others, hothers, hcopied⟩ := exists_of_bind_eq_ok hcopied
    cases hcopied
    rw [hcopy _ _ _ hcommand, ih hothers]

/-! ### Edits -/

/-- What can be done with a sequence. -/
inductive Edit (α : Type)
  | add (command : Command α)
  | addLoop (command : Command α) (target : Option Nat)
  | retarget (loop target : Nat)
  | remove (id : Nat)
  | copy (duplicate : Nat → Command α → Except (LabelingError α) (Command α))
  | set (id : Nat) (setting : Setting α)

namespace Edit

/-- The outcome of a change that may be refused: whether it was made, and the sequence. A change is
refused before anything is written, so there is no other sequence then than the one at hand. -/
def attempt (sequence : Sequence α) :
    Except (LabelingError α) (Sequence α) → Bool × Sequence α
  | .ok changed => (true, changed)
  | .error _ => (false, sequence)

/-- Whether an edit was made, and the sequence after it. -/
def perform (sequence : Sequence α) : Edit α → Bool × Sequence α
  | add command => attempt sequence (sequence.add command)
  | addLoop command target => attempt sequence (sequence.addLoop command target)
  | retarget loop target => attempt sequence (sequence.retarget loop target)
  | remove id => ((sequence.remove id).1.isSome, (sequence.remove id).2)
  | copy duplicate => attempt sequence (sequence.copyWith duplicate)
  | set id setting =>
    match sequence.set? id setting with
    | some (some changed) => attempt sequence changed
    | _ => (false, sequence)

/-- The sequence after an edit. -/
def apply (sequence : Sequence α) (edit : Edit α) : Sequence α := (edit.perform sequence).2

/-- Commands are added as they can be made, copies are true ones, and targets are changed with the
checks that go with it. -/
def Allowed : Edit α → Prop
  | add command | addLoop command _ => command.Made
  | copy duplicate =>
    ∀ position command copied, duplicate position command = .ok copied → copied = command
  | set _ setting => setting.IsParameter
  | retarget .. | remove _ => True

theorem sound_attempt {outcome : Except (LabelingError α) (Sequence α)}
    (hsound : sequence.Sound)
    (hmade : ∀ changed, outcome = .ok changed → changed.Sound ∧ sequence.Continues changed) :
    (attempt sequence outcome).2.Sound ∧ sequence.Continues (attempt sequence outcome).2 := by
  cases outcome with
  | ok changed => exact hmade changed rfl
  | error error => exact ⟨hsound, .refl sequence⟩

omit [Scalar α] in
theorem attempt_refused {sequence : Sequence α}
    {outcome : Except (LabelingError α) (Sequence α)}
    (hrefused : (attempt sequence outcome).1 = false) :
    (attempt sequence outcome).2 = sequence := by
  cases outcome with
  | ok changed => cases hrefused
  | error error => rfl

/-- **One edit.** -/
theorem sound_apply {edit : Edit α} (hallowed : edit.Allowed) (hsound : sequence.Sound) :
    (edit.apply sequence).Sound ∧ sequence.Continues (edit.apply sequence) := by
  have hpushed {changed : Sequence α}
      (hchanged : changed.Sound ∧ ∃ added, changed = sequence.push added) :
      changed.Sound ∧ sequence.Continues changed := by
    obtain ⟨hsound, added, rfl⟩ := hchanged
    exact ⟨hsound, continues_push sequence added⟩
  cases edit with
  | add command =>
    exact sound_attempt hsound fun _ hchanged =>
      hpushed (exists_push_of_add hsound hallowed.inRange hchanged)
  | addLoop command target =>
    exact sound_attempt hsound fun _ hchanged =>
      hpushed (exists_push_of_addLoop hsound hallowed.inRange hchanged)
  | retarget loop target =>
    exact sound_attempt hsound fun _ hchanged => of_retarget hsound hchanged
  | remove id => exact of_remove hsound id
  | copy duplicate =>
    refine sound_attempt hsound fun _ hchanged => ?_
    obtain ⟨entries, hentries, hchanged⟩ := exists_of_bind_eq_ok hchanged
    cases hchanged
    rw [copyFrom_eq_self hallowed hentries]
    exact ⟨hsound, .refl sequence⟩
  | set id setting =>
    rw [apply, perform]
    split
    · rename_i outcome houtcome
      refine sound_attempt hsound fun changed hchanged => ?_
      rw [hchanged] at houtcome
      exact of_set? hsound hallowed houtcome
    · exact ⟨hsound, .refl sequence⟩

/-- **All edits.** -/
theorem sound_foldl {edits : List (Edit α)} (hallowed : ∀ edit ∈ edits, edit.Allowed)
    (hsound : sequence.Sound) :
    (edits.foldl apply sequence).Sound ∧ sequence.Continues (edits.foldl apply sequence) := by
  induction edits generalizing sequence with
  | nil => exact ⟨hsound, .refl sequence⟩
  | cons edit rest ih =>
    obtain ⟨hfirst, hcontinues⟩ := sound_apply (hallowed edit List.mem_cons_self) hsound
    obtain ⟨hlast, hrest⟩ :=
      ih (fun edit hmem => hallowed edit (List.mem_cons_of_mem _ hmem)) hfirst
    exact ⟨hlast, hcontinues.trans hrest⟩

theorem perform_refused {edit : Edit α} (hrefused : (edit.perform sequence).1 = false) :
    (edit.perform sequence).2 = sequence := by
  cases edit with
  | add | addLoop | retarget | copy => exact attempt_refused hrefused
  | remove id =>
    refine remove_of_find?_eq_none ?_
    rwa [perform, Sequence.remove, Option.isSome_eq_false_iff, Option.isNone_iff_eq_none]
      at hrefused
  | set id setting =>
    simp only [perform] at hrefused ⊢
    split at hrefused
    · exact attempt_refused hrefused
    · rfl

end Edit

/-- The sequence that edits make of the empty one. -/
def edited (edits : List (Edit α)) : Sequence α := edits.foldl Edit.apply empty

/-- A target that is there lies in front of its loop. -/
theorem Sound.exists_position?_lt (hsound : sequence.Sound) {position target : Nat}
    {entry : Entry α} {command : Command α} (hentry : sequence.entryAt? position = some entry)
    (hbefore : target < entry.id) (hfound : sequence.find? target = some command) :
    ∃ earlier, sequence.position? target = some earlier ∧ earlier < position := by
  obtain ⟨hposition, rfl⟩ := List.getElem?_eq_some_iff.mp hentry
  have hpresent : (sequence.position? target).isSome = true := by
    rw [position?, List.findIdx?_isSome, List.any_eq_true]
    exact ⟨_, find?_eq_some hfound, beq_self_eq_true target⟩
  obtain ⟨earlier, hearlier⟩ := Option.isSome_iff_exists.mp hpresent
  obtain ⟨hless, hid, -⟩ := List.findIdx?_eq_some_iff_getElem.mp hearlier
  rw [beq_iff_eq] at hid
  refine ⟨earlier, hearlier, Nat.lt_of_not_le fun hle => ?_⟩
  obtain rfl | hlt := Nat.eq_or_lt_of_le hle
  · omega
  · have := List.pairwise_iff_getElem.mp hsound.increasing position earlier hposition hless hlt
    omega

/-- **Edited sequences.** Whatever edits have made of the empty sequence, the numbers of its
commands increase and are below the next one. Every loop has its parameters in range and has a
target unless it only returns to the declared style; the target is smaller than the number of the
loop, and if it is there, it lies in front of the loop and suits it. A number given out never stands
for another command, whatever is edited afterwards. The last clause only names what `Edit.attempt`
does with an edit that is refused. -/
theorem edited_sound (edits : List (Edit α)) (hallowed : ∀ edit ∈ edits, edit.Allowed) :
    (edited edits).entries.Pairwise (fun first second => first.id < second.id) ∧
    (∀ entry ∈ (edited edits).entries, entry.id < (edited edits).nextId) ∧
    (∀ position entry loop, (edited edits).entryAt? position = some entry →
      entry.command = .loop loop →
      loop.kind.InRange ∧ (loop.kind.isReset = false → loop.target.isSome = true) ∧
      ∀ target, loop.target = some target → target < entry.id ∧
        ∀ command, (edited edits).find? target = some command →
          loop.kind.accepts command = true ∧
          ∃ earlier, (edited edits).position? target = some earlier ∧ earlier < position) ∧
    (∀ later : List (Edit α), (∀ edit ∈ later, edit.Allowed) →
      (edited edits).nextId ≤ (edited (edits ++ later)).nextId ∧
      ∀ id < (edited edits).nextId, ∀ command, (edited (edits ++ later)).find? id = some command →
        ∃ original, (edited edits).find? id = some original ∧ original.bare = command.bare) ∧
    ∀ edit : Edit α, (edit.perform (edited edits)).1 = false →
      (edit.perform (edited edits)).2 = edited edits := by
  have hsound : (edited edits).Sound := (Edit.sound_foldl hallowed sound_empty).1
  refine ⟨hsound.increasing, hsound.below, ?_, ?_, fun edit => Edit.perform_refused⟩
  · intro position entry loop hentry hcommand
    have hmem : entry ∈ (edited edits).entries := List.mem_of_getElem? hentry
    have hloop := hsound.loops entry hmem loop hcommand
    refine ⟨hloop.inRange, hloop.targeted, fun target htarget => ?_⟩
    refine ⟨hloop.before target htarget, fun command hfound => ?_⟩
    exact ⟨hloop.suits target htarget _ (find?_eq_some hfound) rfl,
      hsound.exists_position?_lt hentry (hloop.before target htarget) hfound⟩
  · intro later hlater
    rw [edited, edited, List.foldl_append]
    have hcontinues := (Edit.sound_foldl hlater hsound).2
    refine ⟨hcontinues.nextId, fun id hid command hfound => ?_⟩
    obtain ⟨original, horiginal, rfl, hbare⟩ := hcontinues.named _ (find?_eq_some hfound) hid
    exact ⟨original.command, hsound.find?_of_mem horiginal, hbare⟩

/-- A loop that names a target of another sequence is refused, and so is a percentage of zero. The
number of the first command is not used again after it has been removed. -/
theorem removed_number_is_not_reused :
    let loop (target : Option Nat) : Command Rat := .loop ⟨.fontSize 2 20 .reduce, target⟩
    let edits : List (Edit Rat) :=
      [.add (.point ⟨[.north], 0⟩), .add (loop (some 7)), .add (loop none), .set 2 (.percent 0),
        .set 2 (.percent 30), .remove 1]
    let later : List (Edit Rat) := [.add (.point ⟨[.east], 0⟩), .retarget 2 3]
    edited (edits ++ later) = ⟨[⟨2, .loop ⟨.fontSize 2 30 .reduce, some 1⟩⟩,
        ⟨3, .point ⟨[.east], 0⟩⟩], 4⟩ ∧
      ∀ id < 3, ∀ command, (edited (edits ++ later)).find? id = some command →
        ∃ original, (edited edits).find? id = some original ∧ original.bare = command.bare := by
  intro loop edits later
  have hloop (target : Option Nat) : (loop target).Made := by
    have hmade : Command.fontSize 2 20 .reduce = .ok (loop none) := by rfl
    exact (Command.Made.fontSize hmade).withTarget target
  have hparameter (value : Rat) : (Setting.percent value).IsParameter := nofun
  have hallowed : ∀ edit ∈ edits, edit.Allowed := by
    simp only [edits, List.forall_mem_cons, List.not_mem_nil, IsEmpty.forall_iff,
      implies_true, and_true]
    exact ⟨.point _, hloop _, hloop _, hparameter _, hparameter _, trivial⟩
  have hlater : ∀ edit ∈ later, edit.Allowed := by
    simp only [later, List.forall_mem_cons, List.not_mem_nil, IsEmpty.forall_iff,
      implies_true, and_true]
    exact ⟨.point _, trivial⟩
  have hnext : (edited edits).nextId = 3 := by decide +kernel
  obtain ⟨-, -, -, hnumbers, -⟩ := edited_sound edits hallowed
  exact ⟨by decide +kernel, hnext ▸ (hnumbers later hlater).2⟩

end Sequence

end LabelPlacement
