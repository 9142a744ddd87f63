import LabelPlacement.Proofs.Editing
import LabelPlacement.Proofs.Nesting

/-!
# What loops try again

A loop that is added without a target goes back to the last command that it accepts. If that is a
placing command, then each round of the loop tries it again. If it is a loop of the same kind, then
no placing command lies in between, and within the rounds around it the loop that is gone back to
has nothing to repeat. Such rounds try no placement at all, whatever they change.
-/

namespace LabelPlacement

variable {α : Type}

/-! ### Round by round -/

/-- The stages of the rounds of a loop, one list for each time that the loop is re-entered. -/
def LoopKind.stagesByRound [Scalar α] (kind : LoopKind α) (body : Run α → Outcome α)
    (stages : Run α → List (Stage α)) (state : kind.State) (run : Run α) : List (List (Stage α)) :=
  if _again : (kind.reenter state run).again then
    stages (kind.reenter state run).run ::
      match body (kind.reenter state run).run with
      | (.ok false, after) => kind.stagesByRound body stages (kind.reenter state run).state after
      | _ => []
  else []
termination_by kind.remaining state
decreasing_by exact kind.remaining_reenter_lt state run _again

namespace LoopKind

variable [Scalar α] {kind : LoopKind α} {body : Run α → Outcome α}
  {stages : Run α → List (Stage α)} {state : kind.State} {run : Run α}

theorem flatten_stagesByRound :
    (kind.stagesByRound body stages state run).flatten =
      kind.stagesOfRounds body stages state run := by
  fun_induction kind.stagesByRound body stages state run with
  | case1 state run again ih =>
    rw [stagesOfRounds, dif_pos again, List.flatten_cons]
    congr 1
    cases body (kind.reenter state run).run with
    | mk result after =>
      cases result with
      | error error => rfl
      | ok settled =>
        cases settled with
        | false => exact ih after
        | true => rfl
  | case2 state run again =>
    rw [stagesOfRounds, dif_neg again]
    rfl

theorem exists_of_mem_stagesByRound {round : List (Stage α)}
    (hmem : round ∈ kind.stagesByRound body stages state run) : ∃ mid, round = stages mid := by
  fun_induction kind.stagesByRound body stages state run with
  | case1 state run again ih =>
    obtain rfl | hrest := List.mem_cons.mp hmem
    · exact ⟨_, rfl⟩
    · split at hrest
      · exact ih _ hrest
      · cases hrest
  | case2 => cases hmem

end LoopKind

namespace Sequence

variable [Trigonometric α]

/-- The stages of the rounds of a loop that begin at a position, round by round, and without the
loop itself. -/
def roundsFrom (sequence : Sequence α) (start position : Nat) (entry : Entry α) (loop : Loop α)
    (run : Run α) : List (List (Stage α)) :=
  loop.kind.stagesByRound
    (inOrder start (position - start) fun inner _ _ => sequence.executeAt inner start)
    (stagesInOrder start (position - start) (fun inner _ _ => sequence.executeAt inner start)
      fun inner _ _ => sequence.stagesAt inner start)
    (loop.kind.begin (run.visit position entry.id)) (run.visit position entry.id)

variable {sequence : Sequence α} {position declared : Nat} {entry : Entry α} {loop : Loop α}
  {run : Run α}

/-- A loop is carried out by its rounds. -/
theorem stagesAt_roundsFrom (hentry : sequence.entryAt? position = some entry)
    (hloop : entry.command = .loop loop) (hneeds : loop.kind.needsTarget = true)
    (htarget : sequence.targetPosition? position loop = some declared) (returnLimit : Nat) :
    sequence.stagesAt position returnLimit run =
      .outset position entry run ::
        (sequence.roundsFrom (effectiveStart declared returnLimit) position entry loop
            run).flatten.map
          (Stage.within ⟨position, effectiveStart declared returnLimit⟩) := by
  rw [stagesAt_rounds hentry hloop hneeds htarget, roundsFrom, LoopKind.flatten_stagesByRound]

/-- A round carries out the command at its start first. -/
theorem exists_of_mem_roundsFrom {start : Nat} {round : List (Stage α)} {first : Entry α}
    (hfirst : sequence.entryAt? start = some first) (hstart : start < position)
    (hround : round ∈ sequence.roundsFrom start position entry loop run) :
    ∃ mid rest, round = .outset start first mid :: rest := by
  obtain ⟨mid, rfl⟩ := LoopKind.exists_of_mem_stagesByRound hround
  obtain ⟨count, hcount⟩ : ∃ count, position - start = count + 1 :=
    ⟨position - start - 1, by omega⟩
  rw [hcount, stagesInOrder_succ mid (by omega) (by omega) (by omega), stagesAt, hfirst]
  exact ⟨mid, _, List.cons_append⟩

/-- A round keeps between its start and its loop. -/
theorem confined_roundsFrom {start : Nat} {round : List (Stage α)}
    (hround : round ∈ sequence.roundsFrom start position entry loop run) :
    ∀ stage ∈ round, start ≤ stage.visit.position ∧ stage.visit.position < position := by
  intro stage hstage
  obtain ⟨mid, rfl⟩ := LoopKind.exists_of_mem_stagesByRound hround
  obtain ⟨inner, above, below, mid, hinner⟩ := mem_stagesInOrder hstage
  have hconfined := confined_stagesAt above mid stage hinner
  have hposition := hconfined.below
  exact ⟨hconfined.above, by omega⟩

end Sequence

/-! ### Targets that are found -/

theorem Command.any_placingPatterns (command : Command α) :
    LoopKind.placingPatterns.any (·.holds command.tag) = command.isPlacing := by
  cases command with
  | line | point | area | leader | failure => rfl
  | loop loop =>
    obtain ⟨kind, target⟩ := loop
    cases kind with
    | relax relaxation => cases relaxation <;> rfl
    | bufferSize | fontSize | stack | hide => rfl

namespace LoopKind

/-- Whether a loop also goes back to loops of its own kind. -/
def chains : LoopKind α → Bool
  | relax _ => false
  | bufferSize .. | fontSize .. | stack .. | hide _ => true

variable {kind : LoopKind α}

theorem mem_targetPatterns {pattern : TagPattern} (hmem : pattern ∈ kind.targetPatterns) :
    pattern ∈ placingPatterns ∨
      kind.chains = true ∧ pattern = ⟨.persistence, some kind.ordinal⟩ := by
  cases kind with
  | relax relaxation =>
    have hsubset : (relax relaxation).targetPatterns ⊆ placingPatterns := by
      cases relaxation <;> simp [targetPatterns, placingPatterns]
    exact Or.inl (hsubset hmem)
  | bufferSize | fontSize | stack | hide =>
    obtain hplacing | hown := List.mem_append.mp hmem
    · exact Or.inl hplacing
    · exact Or.inr ⟨rfl, List.mem_singleton.mp hown⟩

/-- What a loop accepts is a placing command, or else a loop of its kind. -/
theorem exists_loop_of_accepts {goal : Command α} (haccepts : kind.accepts goal = true)
    (hgoal : goal.isPlacing = false) :
    kind.chains = true ∧ ∃ other, goal = .loop other ∧ other.kind.ordinal = kind.ordinal := by
  have hany : kind.targetPatterns.any (·.holds goal.tag) = true :=
    (Bool.and_eq_true_iff.mp haccepts).1
  obtain ⟨pattern, hmem, hholds⟩ := List.any_eq_true.mp hany
  obtain hplacing | ⟨hchains, rfl⟩ := mem_targetPatterns hmem
  · rw [← goal.any_placingPatterns, List.any_eq_false] at hgoal
    exact absurd hholds (hgoal pattern hplacing)
  · cases goal with
    | line | point | area | leader => cases hgoal
    | failure action => cases hholds
    | loop other =>
      simp only [TagPattern.holds, Command.tag, Option.all_some, Bool.and_eq_true, beq_iff_eq]
        at hholds
      exact ⟨hchains, other, rfl, hholds.2.symm⟩

/-- A loop that goes back to loops of its kind accepts every placing command. -/
theorem accepts_of_isPlacing (hchains : kind.chains = true) {placing : Command α}
    (hplacing : placing.isPlacing = true) : kind.accepts placing = true := by
  have hpattern : kind.targetPatterns.any (·.holds placing.tag) = true := by
    cases kind with
    | relax => cases hchains
    | bufferSize | fontSize | stack | hide =>
      rw [targetPatterns, List.any_append, Command.any_placingPatterns, hplacing, Bool.true_or]
  refine Bool.and_eq_true_iff.mpr ⟨hpattern, ?_⟩
  cases placing with
  | line | point | area | leader => cases kind <;> rfl
  | failure | loop => cases hplacing

end LoopKind

/-! ### Adding commands only -/

namespace Sequence

/-- The loop at a position goes back to the last command in front of it that it accepts. -/
structure LoopsBack (sequence : Sequence α) (position : Nat) (loop : Loop α) (declared : Nat)
    (goal : Entry α) : Prop where
  before : declared < position
  found : sequence.entryAt? declared = some goal
  target : loop.target = some goal.id
  accepted : loop.kind.accepts goal.command = true
  last : ∀ between other, declared < between → between < position →
    sequence.entryAt? between = some other → loop.kind.accepts other.command = false

/-- A sequence to which commands have only been added, none of them with a target: its commands are
numbered from one on, and its loops go back to what they accept. -/
structure Appended (sequence : Sequence α) : Prop where
  numbered : ∀ position entry, sequence.entryAt? position = some entry → entry.id = position + 1
  nextId : sequence.nextId = sequence.length + 1
  loops : ∀ position entry loop, sequence.entryAt? position = some entry →
    entry.command = .loop loop → loop.kind.needsTarget = true →
    ∃ declared goal, sequence.LoopsBack position loop declared goal

variable {sequence : Sequence α} {position declared : Nat} {loop : Loop α} {goal : Entry α}

theorem appended_empty : (empty : Sequence α).Appended where
  numbered position entry hentry := by cases hentry
  nextId := rfl
  loops position entry loop hentry := by cases hentry

theorem entryAt?_push_of_lt (command : Command α) (hposition : position < sequence.length) :
    (sequence.push command).entryAt? position = sequence.entryAt? position :=
  List.getElem?_append_left hposition

theorem lt_length_of_entryAt? {entry : Entry α}
    (hentry : sequence.entryAt? position = some entry) : position < sequence.length :=
  (List.getElem?_eq_some_iff.mp hentry).1

theorem length_push (sequence : Sequence α) (command : Command α) :
    (sequence.push command).length = sequence.length + 1 :=
  List.length_append

theorem eq_or_eq_of_entryAt?_push {command : Command α} {entry : Entry α}
    (hentry : (sequence.push command).entryAt? position = some entry) :
    sequence.entryAt? position = some entry ∨
      position = sequence.length ∧ entry = ⟨sequence.nextId, command⟩ := by
  by_cases hposition : position < sequence.length
  · rw [entryAt?_push_of_lt command hposition] at hentry
    exact Or.inl hentry
  · have hbelow := lt_length_of_entryAt? hentry
    rw [length_push] at hbelow
    obtain rfl : position = sequence.length := by omega
    have hnew : (sequence.push command).entryAt? sequence.length =
        some ⟨sequence.nextId, command⟩ := List.getElem?_concat_length
    exact Or.inr ⟨rfl, Option.some.inj (hentry.symm.trans hnew)⟩

theorem LoopsBack.push (hback : sequence.LoopsBack position loop declared goal)
    (hposition : position ≤ sequence.length) (command : Command α) :
    (sequence.push command).LoopsBack position loop declared goal where
  before := hback.before
  found := by
    rw [entryAt?_push_of_lt command (Nat.lt_of_lt_of_le hback.before hposition)]
    exact hback.found
  target := hback.target
  accepted := hback.accepted
  last between other hafter hbefore hother := by
    rw [entryAt?_push_of_lt command (Nat.lt_of_lt_of_le hbefore hposition)] at hother
    exact hback.last between other hafter hbefore hother

/-- The default target of a loop that comes next. -/
theorem loopsBack_of_defaultTarget? {kind : LoopKind α} {target : Nat}
    (hdefault : sequence.defaultTarget? kind = some target) :
    ∃ declared goal, sequence.LoopsBack sequence.length ⟨kind, some target⟩ declared goal := by
  obtain ⟨goal, hgoal, rfl⟩ := Option.map_eq_some_iff.mp hdefault
  obtain ⟨haccepted, later, earlier, hreverse, hnone⟩ := List.find?_eq_some_iff_append.mp hgoal
  have hentries : sequence.entries = earlier.reverse ++ goal :: later.reverse := by
    rw [← List.reverse_reverse sequence.entries, hreverse]
    simp
  refine ⟨earlier.length, goal, ?_, ?_, rfl, haccepted, ?_⟩
  · rw [length, hentries]
    simp
  · rw [entryAt?, hentries, List.getElem?_append_right (by simp)]
    simp
  · intro between other hafter _ hother
    obtain ⟨offset, rfl⟩ : ∃ offset, between = earlier.length + (offset + 1) :=
      ⟨between - earlier.length - 1, by omega⟩
    rw [entryAt?, hentries, List.getElem?_append_right (by simp)] at hother
    have hlater : other ∈ later := by
      have hmem : later.reverse[offset]? = some other := by simpa using hother
      exact List.mem_reverse.mp (List.mem_of_getElem? hmem)
    simpa using hnone other hlater

theorem Appended.push (happended : sequence.Appended) {command : Command α}
    (hloop : ∀ loop, command = .loop loop → loop.kind.needsTarget = true →
      ∃ declared goal, sequence.LoopsBack sequence.length loop declared goal) :
    (sequence.push command).Appended where
  numbered position entry hentry := by
    obtain hold | ⟨rfl, rfl⟩ := eq_or_eq_of_entryAt?_push hentry
    · exact happended.numbered position entry hold
    · exact happended.nextId
  nextId := by
    rw [length_push]
    exact congrArg (· + 1) happended.nextId
  loops position entry loop hentry hcommand hneeds := by
    obtain hold | ⟨rfl, rfl⟩ := eq_or_eq_of_entryAt?_push hentry
    · obtain ⟨declared, goal, hback⟩ := happended.loops position entry loop hold hcommand hneeds
      exact ⟨declared, goal, hback.push (Nat.le_of_lt (lt_length_of_entryAt? hold)) command⟩
    · obtain ⟨declared, goal, hback⟩ := hloop loop hcommand hneeds
      exact ⟨declared, goal, hback.push (Nat.le_refl _) command⟩

variable [Scalar α]

/-- **One command.** -/
theorem Appended.add (happended : sequence.Appended) {command : Command α}
    (hfree : ∀ loop, command = .loop loop → loop.target = none) :
    (Edit.apply sequence (.add command)).Appended := by
  cases command with
  | line | point | area | leader | failure => exact happended.push (by rintro loop ⟨⟩)
  | loop loop =>
    rw [Edit.apply, Edit.perform, Sequence.add, hfree loop rfl, addLoop]
    cases hresolved : sequence.resolveTarget loop.kind none with
    | error error => exact happended
    | ok target =>
      change (sequence.push (.loop { loop with target })).Appended
      refine happended.push ?_
      rintro found ⟨⟩ hneeds
      rw [resolveTarget, if_pos hneeds] at hresolved
      cases hdefault : sequence.defaultTarget? loop.kind with
      | none => rw [hdefault] at hresolved; cases hresolved
      | some id =>
        rw [hdefault] at hresolved
        cases hresolved
        exact loopsBack_of_defaultTarget? hdefault

/-- **All commands.** -/
theorem Appended.foldl (happended : sequence.Appended) {commands : List (Command α)}
    (hfree : ∀ command ∈ commands, ∀ loop, command = .loop loop → loop.target = none) :
    ((commands.map Edit.add).foldl Edit.apply sequence).Appended := by
  induction commands generalizing sequence with
  | nil => exact happended
  | cons command rest ih =>
    exact ih (happended.add (hfree command List.mem_cons_self))
      fun command hmem => hfree command (List.mem_cons_of_mem _ hmem)

omit [Scalar α] in
/-- Where commands are numbered in order, the target of a loop is found where it stands. -/
theorem LoopsBack.targetPosition?_eq (hback : sequence.LoopsBack position loop declared goal)
    (happended : sequence.Appended) : sequence.targetPosition? position loop = some declared := by
  have hid := happended.numbered declared goal hback.found
  have hposition : sequence.position? goal.id = some declared := by
    obtain ⟨hdeclared, hgoal⟩ := List.getElem?_eq_some_iff.mp hback.found
    rw [position?, List.findIdx?_eq_some_iff_getElem]
    refine ⟨hdeclared, by rw [hgoal, beq_iff_eq], fun earlier hearlier => ?_⟩
    have hentry : sequence.entryAt? earlier = some sequence.entries[earlier] :=
      List.getElem?_eq_getElem (by omega)
    rw [happended.numbered earlier _ hentry, hid, beq_iff_eq]
    omega
  rw [targetPosition?, hback.target]
  simp only [hposition]
  exact Option.filter_eq_some_iff.mpr ⟨rfl, decide_eq_true hback.before⟩

end Sequence

/-! ### Rounds with and without a placement -/

/-- Whether a stage carries out a placing command. -/
def Stage.places (sequence : Sequence α) (stage : Stage α) : Bool :=
  (sequence.entryAt? stage.visit.position).any (·.command.isPlacing)

namespace Sequence

variable [Trigonometric α] {sequence : Sequence α} {position declared : Nat} {entry goal : Entry α}
  {loop : Loop α} {run : Run α}

/-- **One round.** A round from the last command that its loop accepts tries a placement just when
this command does. -/
theorem exists_places_iff (hback : sequence.LoopsBack position loop declared goal)
    {round : List (Stage α)}
    (hround : round ∈ sequence.roundsFrom declared position entry loop run) :
    (∃ stage ∈ round, stage.places sequence = true) ↔ goal.command.isPlacing = true := by
  constructor
  · rintro ⟨stage, hstage, hplaces⟩
    obtain ⟨habove, hbelow⟩ := confined_roundsFrom hround stage hstage
    obtain ⟨other, hother, hplacing⟩ : ∃ other,
        sequence.entryAt? stage.visit.position = some other ∧ other.command.isPlacing = true := by
      rw [Stage.places, Option.any_eq_true_iff_get] at hplaces
      obtain ⟨hfound, hplacing⟩ := hplaces
      exact ⟨_, (Option.some_get hfound).symm, hplacing⟩
    -- Behind the target nothing is accepted, but a loop that accepts loops accepts every placement.
    by_contra hgoal
    rw [Bool.not_eq_true] at hgoal
    obtain ⟨hchains, -⟩ := LoopKind.exists_loop_of_accepts hback.accepted hgoal
    rcases Nat.eq_or_lt_of_le habove with hsame | hafter
    · rw [← hsame, hback.found] at hother
      rw [← Option.some.inj hother, hgoal] at hplacing
      cases hplacing
    · have hrefused := hback.last stage.visit.position other hafter hbelow hother
      rw [LoopKind.accepts_of_isPlacing hchains hplacing] at hrefused
      cases hrefused
  · intro hgoal
    obtain ⟨mid, rest, rfl⟩ := exists_of_mem_roundsFrom hback.found hback.before hround
    refine ⟨_, List.mem_cons_self, ?_⟩
    rw [Stage.places, Stage.outset, hback.found]
    exact hgoal

/-- **What loops retry.** In a sequence of commands that were added without targets, every loop that
needs a target goes back to the last command in front of it that it accepts. As long as the loops
around it let it return there, it carries out that command first in each round; and a round tries a
placement just when that command does. Else the command is a loop of the same kind, and no round
tries any placement. -/
theorem rounds_try_target {commands : List (Command α)}
    (hfree : ∀ command ∈ commands, ∀ loop, command = .loop loop → loop.target = none) :
    let sequence := edited (commands.map .add)
    ∀ position entry loop, sequence.entryAt? position = some entry →
      entry.command = .loop loop → loop.kind.needsTarget = true →
      ∃ declared goal, sequence.LoopsBack position loop declared goal ∧
        (goal.command.isPlacing = false → loop.kind.chains = true ∧
          ∃ other, goal.command = .loop other ∧ other.kind.ordinal = loop.kind.ordinal) ∧
        ∀ returnLimit ≤ declared, ∀ run,
          Visits run
            (.outset position entry run ::
              (sequence.roundsFrom declared position entry loop run).flatten.map
                (Stage.within ⟨position, declared⟩))
            (sequence.executeAt position returnLimit run) ∧
          ∀ round ∈ sequence.roundsFrom declared position entry loop run,
            (∃ mid rest, round = .outset declared goal mid :: rest) ∧
            ((∃ stage ∈ round, stage.places sequence = true) ↔ goal.command.isPlacing = true) := by
  intro sequence position entry loop hentry hloop hneeds
  have happended : sequence.Appended := appended_empty.foldl hfree
  obtain ⟨declared, goal, hback⟩ := happended.loops position entry loop hentry hloop hneeds
  have htarget := hback.targetPosition?_eq happended
  refine ⟨declared, goal, hback, LoopKind.exists_loop_of_accepts hback.accepted, ?_⟩
  intro returnLimit hlimit run
  have hvisits := sequence.visits_executeAt position returnLimit run
  rw [stagesAt_roundsFrom hentry hloop hneeds htarget, effectiveStart, Nat.max_eq_left hlimit]
    at hvisits
  refine ⟨hvisits, fun round hround => ⟨?_, exists_places_iff hback hround⟩⟩
  exact exists_of_mem_roundsFrom hback.found hback.before hround

/-- Where a town is blocked, both rounds of a loop of two steps try its placement again. -/
theorem blocked_town_is_retried :
    let commands : List (Command Rat) :=
      [.point ⟨[.north], 0⟩, .loop ⟨.fontSize 2 10 .reduce, none⟩]
    let sequence := edited (commands.map .add)
    let loop : Loop Rat := ⟨.fontSize 2 10 .reduce, some 1⟩
    let workspace : Workspace Rat :=
      { Workspace.empty .standard with
          index := .insert .empty ⟨.label 99, ⟨⟨-50, -50⟩, ⟨50, 50⟩⟩⟩ }
    let run : Run Rat := .start workspace
      (.create 1 1 "town" (.point ⟨0, 0⟩) (.single "Ab") ⟨10, ⟨1, 1⟩⟩)
    let rounds := sequence.roundsFrom 0 1 ⟨2, .loop loop⟩ loop run
    rounds.length = 2 ∧ ∀ round ∈ rounds, ∃ stage ∈ round, stage.places sequence = true := by
  intro commands sequence loop workspace run rounds
  refine ⟨by decide +kernel, ?_⟩
  have hfree : ∀ command ∈ commands, ∀ loop, command = .loop loop → loop.target = none := by
    simp [commands]
  obtain ⟨declared, goal, hback, -, hrounds⟩ :=
    rounds_try_target hfree 1 ⟨2, .loop loop⟩ loop rfl rfl rfl
  obtain rfl : declared = 0 := Nat.lt_one_iff.mp hback.before
  have hgoal : goal.command.isPlacing = true := by
    rw [← Option.some.inj ((rfl : sequence.entryAt? 0 = _).symm.trans hback.found)]
    rfl
  intro round hround
  exact ((hrounds 0 (Nat.le_refl _) run).2 round hround).2.mpr hgoal

/-- The second of two loops over the size of a label goes back to the first one, which has nothing
to repeat then. It takes a step without trying the placement again. -/
theorem second_loop_tries_nothing :
    let font : Command Rat := .loop ⟨.fontSize 1 10 .reduce, none⟩
    let sequence := edited ([.point ⟨[.north], 0⟩, font, font].map .add)
    let workspace : Workspace Rat :=
      { Workspace.empty .standard with
          index := .insert .empty ⟨.label 99, ⟨⟨-50, -50⟩, ⟨50, 50⟩⟩⟩ }
    let run : Run Rat := .start workspace
      (.create 1 1 "town" (.point ⟨0, 0⟩) (.single "Ab") ⟨10, ⟨1, 1⟩⟩)
    let second : Loop Rat := ⟨.fontSize 1 10 .reduce, some 2⟩
    let before := (sequence.executeRange 0 2 0 run).2
    sequence.entryAt? 2 = some ⟨3, .loop second⟩ ∧
      ((sequence.execute run).2.visits.map (·.command)).reverse = [1, 2, 1, 3, 2] ∧
      (sequence.roundsFrom 1 2 ⟨3, .loop second⟩ second before).map
        (·.map (Stage.places sequence)) = [[false]] := by
  intro font sequence workspace run second before
  refine ⟨?_, ?_, ?_⟩
  · decide +kernel
  · decide +kernel
  · decide +kernel

end Sequence

end LabelPlacement
