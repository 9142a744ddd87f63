import LabelPlacement.Proofs.Exact
import LabelPlacement.Proofs.Settlement

/-!
# Loops within loops

The visits of a run say which commands were carried out, but not within which loops.
`Sequence.stagesAt` lists the commands that carrying out a command comes to, each with the loops
that are under way by then. Its visits are those of the run (`Sequence.visits_executeAt`), and each
loop confines everything that is carried out within it (`Stage.Confined`): its rounds keep between
the position at which they begin and the loop itself, at every depth.
-/

namespace LabelPlacement

variable {α : Type}

/-- A loop that is under way: its position, and the position at which its rounds begin. -/
structure Underway where
  position : Nat
  start : Nat

/-- A command that is carried out, and the loops that are under way by then, the outermost first. -/
structure Stage (α : Type) where
  visit : Visit α
  loops : List Underway

/-- The stage within one more loop, around those that it already is in. -/
def Stage.within (loop : Underway) (stage : Stage α) : Stage α :=
  { stage with loops := loop :: stage.loops }

/-- The stage of a command itself, before any loop of its own is under way. -/
def Stage.outset (position : Nat) (entry : Entry α) (run : Run α) : Stage α :=
  ⟨⟨position, entry.id, run.request⟩, []⟩

/-! ### What is carried out, in order -/

/-- The stages of steps in order, up to the step that settles the label or fails. -/
def stagesInOrder (start count : Nat)
    (step : (position : Nat) → start ≤ position → position < start + count → Run α → Outcome α)
    (stages : (position : Nat) → start ≤ position → position < start + count → Run α →
      List (Stage α))
    (run : Run α) : List (Stage α) :=
  match count with
  | 0 => []
  | count + 1 =>
    stages start (Nat.le_refl _) (by omega) run ++
      match step start (Nat.le_refl _) (by omega) run with
      | (.ok false, after) =>
        stagesInOrder (start + 1) count
          (fun position above below => step position (by omega) (by omega))
          (fun position above below => stages position (by omega) (by omega)) after
      | _ => []

/-- The stages of the rounds of a loop, up to the round that settles the label or fails. -/
def LoopKind.stagesOfRounds [Scalar α] (kind : LoopKind α) (body : Run α → Outcome α)
    (stages : Run α → List (Stage α)) (state : kind.State) (run : Run α) : List (Stage α) :=
  if _again : (kind.reenter state run).again then
    stages (kind.reenter state run).run ++
      match body (kind.reenter state run).run with
      | (.ok false, after) => kind.stagesOfRounds body stages (kind.reenter state run).state after
      | _ => []
  else []
termination_by kind.remaining state
decreasing_by exact kind.remaining_reenter_lt state run _again

/-- The stages of carrying out the command at a position: the command itself, and if it is a loop,
then those of its rounds. -/
def Sequence.stagesAt [Trigonometric α] (sequence : Sequence α) (position returnLimit : Nat)
    (run : Run α) : List (Stage α) :=
  match sequence.entryAt? position with
  | none => []
  | some entry =>
    let visited := run.visit position entry.id
    .outset position entry run ::
      match entry.command with
      | .loop loop =>
        if loop.kind.needsTarget then
          match sequence.targetPosition? position loop with
          | none => []
          | some declared =>
            let start := effectiveStart declared returnLimit
            let body := inOrder start (position - start) fun inner _ _ =>
              sequence.executeAt inner start
            let stages := stagesInOrder start (position - start)
              (fun inner _ _ => sequence.executeAt inner start)
              (fun inner _ _ => sequence.stagesAt inner start)
            (loop.kind.stagesOfRounds body stages (loop.kind.begin visited) visited).map
              (Stage.within ⟨position, start⟩)
        else []
      | _ => []
termination_by position

/-- The stages of the first step, and of the others if it settles nothing. -/
theorem stagesInOrder_succ {start count : Nat}
    {step : (position : Nat) → start ≤ position → position < start + (count + 1) → Run α →
      Outcome α}
    {stages : (position : Nat) → start ≤ position → position < start + (count + 1) → Run α →
      List (Stage α)}
    (run : Run α) (hfirst : start < start + (count + 1))
    (habove : ∀ position, start + 1 ≤ position → start ≤ position)
    (hbelow : ∀ position, position < start + 1 + count → position < start + (count + 1)) :
    stagesInOrder start (count + 1) step stages run =
      stages start (Nat.le_refl start) hfirst run ++
        match step start (Nat.le_refl start) hfirst run with
        | (.ok false, after) =>
          stagesInOrder (start + 1) count
            (fun position above below => step position (habove position above)
              (hbelow position below))
            (fun position above below => stages position (habove position above)
              (hbelow position below)) after
        | _ => [] := rfl

theorem mem_stagesInOrder {start count : Nat}
    {step : (position : Nat) → start ≤ position → position < start + count → Run α → Outcome α}
    {stages : (position : Nat) → start ≤ position → position < start + count → Run α →
      List (Stage α)}
    {run : Run α} {stage : Stage α} (hmem : stage ∈ stagesInOrder start count step stages run) :
    ∃ position above below mid, stage ∈ stages position above below mid := by
  induction count generalizing start run with
  | zero => exact absurd hmem List.not_mem_nil
  | succ count ih =>
    rw [stagesInOrder_succ run (by omega) (by omega) (by omega), List.mem_append] at hmem
    obtain hfirst | hrest := hmem
    · exact ⟨start, Nat.le_refl _, by omega, run, hfirst⟩
    · split at hrest
      · obtain ⟨position, above, below, mid, hlater⟩ := ih hrest
        exact ⟨position, by omega, by omega, mid, hlater⟩
      · simp at hrest

theorem LoopKind.mem_stagesOfRounds [Scalar α] {kind : LoopKind α} {body : Run α → Outcome α}
    {stages : Run α → List (Stage α)} {state : kind.State} {run : Run α} {stage : Stage α}
    (hmem : stage ∈ kind.stagesOfRounds body stages state run) : ∃ mid, stage ∈ stages mid := by
  fun_induction kind.stagesOfRounds body stages state run with
  | case1 state run _ ih =>
    obtain hround | hrest := List.mem_append.mp hmem
    · exact ⟨_, hround⟩
    · split at hrest
      · exact ih _ hrest
      · simp at hrest
  | case2 => simp at hmem

/-! ### The stages of a run are its visits -/

/-- An outcome has visited stages, in this order, since a run. -/
def Visits (run : Run α) (stages : List (Stage α)) (outcome : Outcome α) : Prop :=
  outcome.2.visits = (stages.map Stage.visit).reverse ++ run.visits

theorem Visits.append {run mid : Run α} {first second : List (Stage α)}
    {result : Except (LabelingError α) Bool} {outcome : Outcome α}
    (hfirst : Visits run first (result, mid)) (hsecond : Visits mid second outcome) :
    Visits run (first ++ second) outcome := by
  rw [Visits, hsecond, show mid.visits = _ from hfirst, List.map_append, List.reverse_append,
    List.append_assoc]

theorem Visits.agrees {run before : Run α} {stages : List (Stage α)} {outcome : Outcome α}
    {result : Except (LabelingError α) Bool} {after : Run α}
    (hvisits : Visits before stages outcome) (hbefore : run.Agrees before)
    (hafter : outcome.2.Agrees after) : Visits run stages (result, after) := by
  rw [Visits, hafter.visits, hvisits, hbefore.visits]

theorem visits_inOrder {start count : Nat}
    {step : (position : Nat) → start ≤ position → position < start + count → Run α → Outcome α}
    {stages : (position : Nat) → start ≤ position → position < start + count → Run α →
      List (Stage α)}
    (hstep : ∀ position above below run,
      Visits run (stages position above below run) (step position above below run))
    (run : Run α) :
    Visits run (stagesInOrder start count step stages run) (inOrder start count step run) := by
  induction count generalizing start run with
  | zero => rfl
  | succ count ih =>
    have hfirst := hstep start (Nat.le_refl _) (by omega) run
    rw [inOrder, stagesInOrder_succ run (by omega) (by omega) (by omega)]
    cases hcase : step start (Nat.le_refl _) (by omega) run with
    | mk result mid =>
      rw [hcase] at hfirst
      cases result with
      | error error => simpa using hfirst
      | ok settled =>
        cases settled with
        | false =>
          exact hfirst.append (ih (fun position above below run => hstep position _ _ run) mid)
        | true => simpa using hfirst

namespace LoopKind

variable [Scalar α]

theorem visits_rounds {kind : LoopKind α} {body : Run α → Outcome α}
    {stages : Run α → List (Stage α)} (hbody : ∀ run, Visits run (stages run) (body run))
    (state : kind.State) (run : Run α) :
    Visits run (kind.stagesOfRounds body stages state run) (kind.rounds body state run) := by
  -- By the rounds that are left, as the loop itself: `rounds_rule` does not follow two recursions.
  induction hremaining : kind.remaining state using Nat.strongRecOn generalizing state run with
  | _ remaining ih =>
    have hreenter := kind.agrees_reenter state run
    rw [rounds, stagesOfRounds]
    split
    · rename_i hagain
      have hless := kind.remaining_reenter_lt state run hagain
      have hround := hbody (kind.reenter state run).run
      cases hcase : body (kind.reenter state run).run with
      | mk result mid =>
        rw [hcase] at hround
        have hstarted : Visits run (stages (kind.reenter state run).run) (result, mid) :=
          hround.agrees hreenter (.refl _)
        cases result with
        | error error => simpa using hround.agrees hreenter (kind.agrees_finish _ _)
        | ok settled =>
          cases settled with
          | false => exact hstarted.append (ih _ (hremaining ▸ hless) _ mid rfl)
          | true => simpa using hround.agrees hreenter (kind.agrees_finish _ _)
    · exact ((hreenter.trans (kind.agrees_finish _ _)).visits :)

end LoopKind

namespace Sequence

variable [Trigonometric α] {sequence : Sequence α}

section

variable {position : Nat} {entry : Entry α} {loop : Loop α}

theorem stagesAt_single (hentry : sequence.entryAt? position = some entry)
    (hsingle : entry.command.loop? = none) (returnLimit : Nat) (run : Run α) :
    sequence.stagesAt position returnLimit run = [.outset position entry run] := by
  rw [stagesAt, hentry]
  cases hcommand : entry.command with
  | loop loop => rw [hcommand] at hsingle; cases hsingle
  | line | point | area | leader | failure => simp only [hcommand]

theorem stagesAt_reset (hentry : sequence.entryAt? position = some entry)
    (hloop : entry.command = .loop loop) (hneeds : loop.kind.needsTarget = false)
    (returnLimit : Nat) (run : Run α) :
    sequence.stagesAt position returnLimit run = [.outset position entry run] := by
  rw [stagesAt, hentry]
  simp only [hloop, hneeds]
  rfl

theorem stagesAt_unresolved (hentry : sequence.entryAt? position = some entry)
    (hloop : entry.command = .loop loop) (hneeds : loop.kind.needsTarget = true)
    (htarget : sequence.targetPosition? position loop = none) (returnLimit : Nat) (run : Run α) :
    sequence.stagesAt position returnLimit run = [.outset position entry run] := by
  rw [stagesAt, hentry]
  simp only [hloop, hneeds, htarget]
  rfl

theorem stagesAt_rounds {declared : Nat} (hentry : sequence.entryAt? position = some entry)
    (hloop : entry.command = .loop loop) (hneeds : loop.kind.needsTarget = true)
    (htarget : sequence.targetPosition? position loop = some declared) (returnLimit : Nat)
    (run : Run α) :
    sequence.stagesAt position returnLimit run =
      .outset position entry run ::
        (loop.kind.stagesOfRounds
          (inOrder (effectiveStart declared returnLimit)
            (position - effectiveStart declared returnLimit)
            fun inner _ _ => sequence.executeAt inner (effectiveStart declared returnLimit))
          (stagesInOrder (effectiveStart declared returnLimit)
            (position - effectiveStart declared returnLimit)
            (fun inner _ _ => sequence.executeAt inner (effectiveStart declared returnLimit))
            fun inner _ _ => sequence.stagesAt inner (effectiveStart declared returnLimit))
          (loop.kind.begin (run.visit position entry.id)) (run.visit position entry.id)).map
        (Stage.within ⟨position, effectiveStart declared returnLimit⟩) := by
  rw [stagesAt, hentry]
  simp only [hloop, hneeds, htarget]
  rfl

end

/-- **The stages are the visits.** What carrying out a command adds to the visits of a run is the
stages of the command. -/
theorem visits_executeAt (sequence : Sequence α) (position returnLimit : Nat) (run : Run α) :
    Visits run (sequence.stagesAt position returnLimit run)
      (sequence.executeAt position returnLimit run) := by
  induction position using Nat.strongRecOn generalizing returnLimit run with
  | _ position ih =>
    cases sequence.commandAt position with
    | absent hentry =>
      rw [executeAt_absent hentry, stagesAt, hentry]
      rfl
    | single hentry hsingle =>
      rw [executeAt_single hentry hsingle, stagesAt_single hentry hsingle]
      exact visits_performSingle hsingle _
    | reset hentry hloop hneeds =>
      rw [executeAt_reset hentry hloop hneeds, stagesAt_reset hentry hloop hneeds]
      exact (LoopKind.agrees_restoreDeclared _ _).visits
    | unresolved hentry hloop hneeds htarget =>
      rw [executeAt_unresolved hentry hloop hneeds htarget,
        stagesAt_unresolved hentry hloop hneeds htarget]
      rfl
    | @rounds entry loop declared hentry hloop hneeds htarget =>
      rw [executeAt_rounds hentry hloop hneeds htarget, stagesAt_rounds hentry hloop hneeds htarget]
      have hvisited : Visits run [.outset position entry run]
          (.ok false, run.visit position entry.id) := rfl
      refine hvisited.append ?_
      rw [Visits, List.map_map]
      refine LoopKind.visits_rounds (visits_inOrder fun inner above below run => ?_) _ _
      exact ih inner (by omega) _ run

/-! ### Confinement -/

/-- Loops under way, the outermost first: each stands in the sequence with a target in front of it,
and its rounds begin at the target, or at the start of the rounds around it if that comes later. -/
def Nested (sequence : Sequence α) : (returnLimit : Nat) → List Underway → Prop
  | _, [] => True
  | returnLimit, loop :: inner =>
    (∃ entry found declared, sequence.entryAt? loop.position = some entry ∧
      entry.command = .loop found ∧
      sequence.targetPosition? loop.position found = some declared ∧
      loop.start = effectiveStart declared returnLimit) ∧
    sequence.Nested loop.start inner

end Sequence

/-- What carrying out the command at a position under a return limit keeps to. Every command of it
stands between the limit and that position, and for each loop that is under way by then, between the
start of its rounds and the loop. Loops further inside begin no earlier. -/
structure Stage.Confined (sequence : Sequence α) (position returnLimit : Nat)
    (stage : Stage α) : Prop where
  found : ∃ entry, sequence.entryAt? stage.visit.position = some entry ∧
    entry.id = stage.visit.command
  above : returnLimit ≤ stage.visit.position
  below : stage.visit.position ≤ position
  nested : sequence.Nested returnLimit stage.loops
  loops : ∀ loop ∈ stage.loops, returnLimit ≤ loop.start ∧ loop.start ≤ stage.visit.position ∧
    stage.visit.position < loop.position ∧ loop.position ≤ position
  inward : stage.loops.Pairwise fun outer inner =>
    outer.start ≤ inner.start ∧ inner.position < outer.position

namespace Stage

variable {sequence : Sequence α}

theorem confined_outset {position returnLimit : Nat} {entry : Entry α}
    (hentry : sequence.entryAt? position = some entry) (hlimit : returnLimit ≤ position)
    (run : Run α) : (outset position entry run).Confined sequence position returnLimit where
  found := ⟨entry, hentry, rfl⟩
  above := hlimit
  below := Nat.le_refl _
  nested := trivial
  loops := by simp [outset]
  inward := .nil

/-- **One loop.** What keeps to the rounds of a loop, with their start for a limit, keeps to the
loop and to the limit that it was carried out under. -/
theorem Confined.within {stage : Stage α} {position inner returnLimit declared : Nat}
    {entry : Entry α} {loop : Loop α}
    (hconfined : stage.Confined sequence inner (effectiveStart declared returnLimit))
    (hentry : sequence.entryAt? position = some entry) (hloop : entry.command = .loop loop)
    (htarget : sequence.targetPosition? position loop = some declared) (hinner : inner < position) :
    (stage.within ⟨position, effectiveStart declared returnLimit⟩).Confined sequence position
      returnLimit := by
  have hlimit : returnLimit ≤ effectiveStart declared returnLimit := Nat.le_max_right ..
  have habove := hconfined.above
  have hbelow := hconfined.below
  refine ⟨hconfined.found, by simp only [Stage.within]; omega, by simp only [Stage.within]; omega,
    ⟨⟨entry, loop, declared, hentry, hloop, htarget, rfl⟩, hconfined.nested⟩, ?_, ?_⟩
  · rintro underway (_ | ⟨_, hmem⟩)
    · exact ⟨hlimit, habove, by simp only [Stage.within]; omega, Nat.le_refl _⟩
    · obtain ⟨hstart, hfrom, hto, hposition⟩ := hconfined.loops underway hmem
      exact ⟨by omega, hfrom, hto, by omega⟩
  · refine .cons (fun underway hmem => ?_) hconfined.inward
    obtain ⟨hstart, -, -, hposition⟩ := hconfined.loops underway hmem
    exact ⟨hstart, by dsimp only; omega⟩

end Stage

namespace Sequence

variable [Trigonometric α]

/-- **All loops.** Whatever is carried out at a position keeps to the position and the limit, at
every depth. -/
theorem confined_stagesAt {sequence : Sequence α} {position returnLimit : Nat}
    (hlimit : returnLimit ≤ position) (run : Run α) :
    ∀ stage ∈ sequence.stagesAt position returnLimit run,
      stage.Confined sequence position returnLimit := by
  induction position using Nat.strongRecOn generalizing returnLimit run with
  | _ position ih =>
    intro stage hmem
    cases sequence.commandAt position with
    | absent hentry =>
      rw [stagesAt, hentry] at hmem
      cases hmem
    | single hentry hsingle =>
      rw [stagesAt_single hentry hsingle, List.mem_singleton] at hmem
      exact hmem ▸ Stage.confined_outset hentry hlimit run
    | reset hentry hloop hneeds =>
      rw [stagesAt_reset hentry hloop hneeds, List.mem_singleton] at hmem
      exact hmem ▸ Stage.confined_outset hentry hlimit run
    | unresolved hentry hloop hneeds htarget =>
      rw [stagesAt_unresolved hentry hloop hneeds htarget, List.mem_singleton] at hmem
      exact hmem ▸ Stage.confined_outset hentry hlimit run
    | rounds hentry hloop hneeds htarget =>
      rw [stagesAt_rounds hentry hloop hneeds htarget, List.mem_cons] at hmem
      obtain rfl | hround := hmem
      · exact Stage.confined_outset hentry hlimit run
      · obtain ⟨inside, hinside, rfl⟩ := List.mem_map.mp hround
        obtain ⟨mid, hbody⟩ := LoopKind.mem_stagesOfRounds hinside
        obtain ⟨inner, above, below, mid, hcommand⟩ := mem_stagesInOrder hbody
        have hinner : inner < position := by omega
        exact (ih inner hinner above mid inside hcommand).within hentry hloop htarget hinner

theorem exists_stagesAt_eq_cons {sequence : Sequence α} {position : Nat}
    (hposition : position < sequence.length) (returnLimit : Nat) (run : Run α) :
    ∃ entry rest, sequence.entryAt? position = some entry ∧
      sequence.stagesAt position returnLimit run = .outset position entry run :: rest := by
  have hentry : sequence.entryAt? position = some sequence.entries[position] :=
    List.getElem?_eq_getElem hposition
  rw [stagesAt, hentry]
  exact ⟨_, _, rfl, rfl⟩

/-- **Confinement.** A command that is carried out is visited first, and then the commands that its
rounds repeat, at any depth. All of them stand between the return limit and the command; those that
are carried out while the rounds of a loop are under way stand between the start of these rounds and
the loop. So no loop returns to a command before the start of the rounds around it. -/
theorem executeAt_confined (sequence : Sequence α) {position returnLimit : Nat}
    (hlimit : returnLimit ≤ position) (hposition : position < sequence.length) (run : Run α) :
    (∃ entry rest, sequence.entryAt? position = some entry ∧
      sequence.stagesAt position returnLimit run = .outset position entry run :: rest) ∧
    (sequence.executeAt position returnLimit run).2.visits =
      ((sequence.stagesAt position returnLimit run).map Stage.visit).reverse ++ run.visits ∧
    ∀ stage ∈ sequence.stagesAt position returnLimit run,
      stage.Confined sequence position returnLimit :=
  ⟨exists_stagesAt_eq_cons hposition returnLimit run,
    sequence.visits_executeAt position returnLimit run, confined_stagesAt hlimit run⟩

/-- The inner loop names the first command, which it may return to on its own. Within the outer loop
it returns to the second command only, where the rounds around it begin. -/
theorem inner_loop_keeps_to_outer :
    let sequence : Sequence Rat :=
      ⟨[⟨1, .point ⟨[], 0⟩⟩, ⟨2, .point ⟨[], 0⟩⟩, ⟨3, .loop ⟨.fontSize 1 50 .reduce, some 1⟩⟩,
        ⟨4, .loop ⟨.bufferSize .label 1 .reduce, some 2⟩⟩], 5⟩
    let run : Run Rat := .start (.empty .standard)
      (.create 1 1 "town" (.point ⟨0, 0⟩) (.single "Bern") ⟨10, ⟨1, 1⟩⟩)
    let places (position : Nat) := (sequence.stagesAt position 0 run).map fun stage =>
      (stage.visit.position, stage.loops.map (·.start))
    places 2 = [(2, []), (0, [0]), (1, [0])] ∧
      places 3 = [(3, []), (1, [1]), (2, [1]), (1, [1, 1])] ∧
      ∀ stage ∈ sequence.stagesAt 3 0 run, stage.Confined sequence 3 0 := by
  intro sequence run places
  exact ⟨by decide +kernel, by decide +kernel,
    (sequence.executeAt_confined (by decide) (by decide) run).2.2⟩

end Sequence

end LabelPlacement
