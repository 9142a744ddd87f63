import LabelPlacement.Ending
import LabelPlacement.Proofs.Settlement

/-!
# Endings

A run that comes back ends as the commands that it carries out say, each of which settles the label
or leaves it as it is (`Command.attempted_of_ending`). `Sequence.Keeps` lists what a condition on
runs has to satisfy to be kept until something ends a run, whether that is a settled label, an
error, a crash or a search without an end; `Sequence.Keeps.ending` gives it for the whole sequence.
Where the single commands come back as they are performed elsewhere, so does the sequence
(`Sequence.endingAt_performSingle`).
-/

namespace LabelPlacement

namespace Ending

variable {ρ ι κ : Type}

/-- The result meets a condition, if there is one, and otherwise what crashes does or what goes on
for ever. -/
def Meets (holds : ι → Prop) (crashes lasts : ρ → Prop) : Ending ρ ι → Prop
  | result value => holds value
  | crash last => crashes last
  | endless last => lasts last

variable {holds : ι → Prop} {crashes lasts : ρ → Prop} {ending : Ending ρ ι}

theorem Meets.andThen {condition : κ → Prop} {next : ι → Ending ρ κ}
    (hmeets : ending.Meets (fun value => (next value).Meets condition crashes lasts) crashes
      lasts) :
    (ending.andThen next).Meets condition crashes lasts := by
  cases ending with
  | result value => exact hmeets
  | crash last => exact hmeets
  | endless last => exact hmeets

theorem Meets.map {condition : κ → Prop} {change : ι → κ}
    (hmeets : ending.Meets (fun value => condition (change value)) crashes lasts) :
    (ending.map change).Meets condition crashes lasts :=
  Meets.andThen hmeets

theorem Meets.weaken {mayCrash mayLast : ρ → Prop} (hmeets : ending.Meets holds crashes lasts)
    (hcrash : ∀ last, crashes last → mayCrash last) (hlast : ∀ last, lasts last → mayLast last) :
    ending.Meets holds mayCrash mayLast := by
  cases ending with
  | result value => exact hmeets
  | crash last => exact hcrash last hmeets
  | endless last => exact hlast last hmeets

theorem Meets.imp {condition : ι → Prop} (hmeets : ending.Meets holds crashes lasts)
    (himp : ∀ value, holds value → condition value) : ending.Meets condition crashes lasts := by
  cases ending with
  | result value => exact himp value hmeets
  | crash last => exact hmeets
  | endless last => exact hmeets

theorem Meets.of_result {value : ι} (hmeets : ending.Meets holds crashes lasts)
    (hresult : ending = .result value) : holds value := by
  rw [hresult] at hmeets
  exact hmeets

theorem meets_of_results (hresults : ∀ value, ending = .result value → holds value)
    (hcrash : ∀ last, ending = .crash last → crashes last)
    (hendless : ∀ last, ending = .endless last → lasts last) :
    ending.Meets holds crashes lasts := by
  cases ending with
  | result value => exact hresults value rfl
  | crash last => exact hcrash last rfl
  | endless last => exact hendless last rfl

theorem meets_during {ending : Ending Unit ι} {last : ρ}
    (hresults : ∀ value, ending = .result value → holds value)
    (hcrash : ending = .crash () → crashes last) (hendless : ending = .endless () → lasts last) :
    (ending.during last).Meets holds crashes lasts := by
  cases ending with
  | result value => exact hresults value rfl
  | crash => exact hcrash rfl
  | endless => exact hendless rfl

theorem during_eq_result_iff {ending : Ending Unit ι} {last : ρ} {value : ι} :
    ending.during last = .result value ↔ ending = .result value := by
  cases ending <;> simp [during]

theorem map_eq_result_iff {change : ι → κ} {value : κ} :
    ending.map change = .result value ↔ ∃ first, ending = .result first ∧ change first = value := by
  cases ending <;> simp [map, andThen]

theorem andThen_eq_result_iff {next : ι → Ending ρ κ} {value : κ} :
    ending.andThen next = .result value ↔
      ∃ first, ending = .result first ∧ next first = .result value := by
  cases ending <;> simp [andThen]

theorem exists_of_ofRounds {enough : Nat → Prop} {value : Nat → ι} {found : ι}
    (hfound : ofRounds enough value = .result found) :
    ∃ rounds, enough rounds ∧ value rounds = found := by
  rw [ofRounds] at hfound
  split at hfound
  · rename_i henough
    exact ⟨_, henough.choose_spec, result.inj hfound⟩
  · cases hfound

/-- Where all numbers of rounds that are enough give one value, one of them tells it. -/
theorem ofRounds_eq_result {enough : Nat → Prop} {value : Nat → ι}
    (hsame : ∀ rounds other, enough rounds → enough other → value rounds = value other)
    {rounds : Nat} (henough : enough rounds) : ofRounds enough value = .result (value rounds) := by
  have hfound : ∃ rounds, enough rounds := ⟨rounds, henough⟩
  rw [ofRounds, dif_pos hfound, hsame _ _ hfound.choose_spec henough]

end Ending

variable {α : Type}

/-! ### Single commands -/

section
variable [Trigonometric α] {run : Run α}

theorem Run.conflicts_of_leaderEnding {maxLength : Option α} {place : LeaderPlace α}
    (hfound : run.leaderEnding maxLength = .result (some place)) :
    run.conflicts place.candidate.bounds = [] := by
  rw [leaderEnding] at hfound
  split at hfound
  · cases Ending.result.inj hfound
  · dsimp only at hfound
    split at hfound
    · cases Ending.result.inj hfound
    · obtain ⟨found, hsearch, hordered⟩ := Ending.andThen_eq_result_iff.mp hfound
      obtain ⟨rings, -, hrings⟩ := Ending.exists_of_ofRounds hsearch
      cases found with
      | none => cases Ending.result.inj hordered
      | some first =>
        obtain ⟨second, hsecond, hplace⟩ := Ending.map_eq_result_iff.mp hordered
        rw [LeaderPlace.ending] at hsecond
        split at hsecond
        · obtain rfl := Ending.result.inj hsecond
          exact Option.some.inj hplace ▸ conflicts_of_onRings? hrings
        · cases hsecond

theorem FailureAction.settled_of_ending {action : FailureAction} {after : Run α}
    (hresult : action.ending run = .result after) : Settled run after := by
  cases action with
  | suppress | force => exact Ending.result.inj hresult ▸ settled_perform _ run
  | forceWithLeader =>
    obtain ⟨found, -, rfl⟩ := Ending.map_eq_result_iff.mp hresult
    cases found with
    | some place =>
      exact .placed place.candidate .forcedWithLeader (some place.leader) run.ideal rfl rfl
        (by simp [Status.isFree])
    | none => exact .suppressed

theorem LinePlacement.ending_eq_crash {placement : LinePlacement α} {points : List (Point α)}
    (hshape : run.request.shape = .line points) (hlong : ¬Polyline.length points ≤ tolerance)
    (hrange : ¬Scalar.smaller (placement.minimum.resolve (Polyline.length points))
          (placement.maximum.resolve (Polyline.length points)) ≤
        Scalar.larger (placement.minimum.resolve (Polyline.length points))
          (placement.maximum.resolve (Polyline.length points))) :
    placement.ending run = .crash () := by
  simp only [ending, hshape]
  rw [if_neg hlong, SearchRange.ending, searchRange, if_neg hrange]
  rfl

namespace Command

variable {command : Command α} {outcome : Outcome α}

/-- **One command.** If it comes back, a command other than a loop settles the label or leaves it as
it is. -/
theorem attempted_of_ending (hcommand : command.loop? = none)
    (hresult : command.ending run = .result outcome) : run.Attempted outcome := by
  cases command with
  | line placement =>
    obtain ⟨outcome, hplaced, rfl⟩ := Ending.map_eq_result_iff.mp hresult
    rw [LinePlacement.ending] at hplaced
    split at hplaced
    · split at hplaced
      · exact Ending.result.inj hplaced ▸ run.attempted_nothing
      · obtain ⟨positions, -, rfl⟩ := Ending.map_eq_result_iff.mp hplaced
        exact run.attempted_placeFirst _ _
    · exact Ending.result.inj hplaced ▸ run.attempted_nothing
  | leader placement =>
    obtain ⟨outcome, hplaced, rfl⟩ := Ending.map_eq_result_iff.mp hresult
    rw [LeaderPlacement.ending] at hplaced
    split at hplaced
    · obtain ⟨found, hfound, rfl⟩ := Ending.map_eq_result_iff.mp hplaced
      cases found with
      | none => exact run.attempted_nothing
      | some place =>
        exact .settled (.placed place.candidate .placedWithLeader (some place.leader) run.ideal rfl
          rfl fun _ => Run.conflicts_of_leaderEnding hfound)
    · rename_i htiming
      rw [← Ending.result.inj hplaced, LeaderPlacement.perform, htiming]
      exact .settled (.deferred placement.maxLength)
  | failure action =>
    obtain ⟨after, hafter, rfl⟩ := Ending.map_eq_result_iff.mp hresult
    exact .settled (FailureAction.settled_of_ending hafter)
  | point | area =>
    exact Ending.result.inj hresult ▸ Sequence.attempted_performSingle hcommand run
  | loop loop => cases hcommand

/-- A command that does not come back is what the run was doing then. -/
theorem meets_performing {holds : Outcome α → Prop} {crashes lasts : Performing α → Prop}
    (hresults : ∀ outcome, command.ending run = .result outcome → holds outcome)
    (hcrash : command.ending run = .crash () → crashes ⟨command, run⟩)
    (hendless : command.ending run = .endless () → lasts ⟨command, run⟩) :
    (command.performing run).Meets holds crashes lasts :=
  Ending.meets_during hresults hcrash hendless

theorem performing_eq_result_iff :
    command.performing run = .result outcome ↔ command.ending run = .result outcome :=
  Ending.during_eq_result_iff

/-- The only error of a single command is that of a placement around a point. -/
theorem performed_of_error (hresult : command.ending run = .result outcome)
    {error : LabelingError α} (herror : outcome.1 = .error error) :
    outcome = Sequence.performSingle command run := by
  cases command with
  | line placement | leader placement | failure action =>
    obtain ⟨after, -, rfl⟩ := Ending.map_eq_result_iff.mp hresult
    cases herror
  | point | area | loop => exact (Ending.result.inj hresult).symm

end Command

end

/-! ### Sequences -/

/-- A condition on runs holds if nothing is settled, and otherwise another one of the outcome. -/
def Kept (inv : Run α → Prop) (ended : Outcome α → Prop) : Outcome α → Prop
  | (.ok false, run) => inv run
  | outcome => ended outcome

section
variable {ρ : Type} {inv : Run α → Prop} {ended : Outcome α → Prop} {crashes lasts : ρ → Prop}

theorem Kept.of_settled {outcome : Outcome α} (hkept : Kept inv ended outcome)
    (hsettled : outcome.1 ≠ .ok false) : ended outcome := by
  obtain ⟨result, run⟩ := outcome
  cases result with
  | error error => exact hkept
  | ok settled =>
    cases settled with
    | true => exact hkept
    | false => exact absurd rfl hsettled

theorem kept_of_ended {outcome : Outcome α} (hsettled : outcome.1 ≠ .ok false)
    (hended : ended outcome) : Kept inv ended outcome := by
  obtain ⟨result, run⟩ := outcome
  cases result with
  | error error => exact hended
  | ok settled =>
    cases settled with
    | true => exact hended
    | false => exact absurd rfl hsettled

/-- **Commands in order.** -/
theorem meets_inOrderEnding {start count : Nat}
    {step : (position : Nat) → start ≤ position → position < start + count → Run α →
      Ending ρ (Outcome α)}
    (hstep : ∀ position above below run, inv run →
      (step position above below run).Meets (Kept inv ended) crashes lasts)
    {run : Run α} (hinv : inv run) :
    (inOrderEnding start count step run).Meets (Kept inv ended) crashes lasts := by
  induction count generalizing start run with
  | zero => exact hinv
  | succ count ih =>
    rw [inOrderEnding]
    refine ((hstep start (Nat.le_refl _) (by omega) run hinv).imp ?_).andThen
    intro outcome hkept
    split
    · exact ih (fun position above below run => hstep position (by omega) (by omega) run) hkept
    · exact hkept

/-- **Rounds.** -/
theorem LoopKind.meets_roundsEnding [Scalar α] {kind : LoopKind α}
    {body : Run α → Ending ρ (Outcome α)}
    (hbody : ∀ run, inv run → (body run).Meets (Kept inv ended) crashes lasts)
    (hreenter : ∀ state run, inv run → inv (kind.reenter state run).run)
    (hfinish : ∀ state run, inv run → inv (kind.finish state run))
    (hended : ∀ state result run, ended (result, run) → ended (result, kind.finish state run))
    (state : kind.State) {run : Run α} (hinv : inv run) :
    (kind.roundsEnding body state run).Meets (Kept inv ended) crashes lasts := by
  induction hremaining : kind.remaining state using Nat.strongRecOn generalizing state run with
  | _ remaining ih =>
    rw [roundsEnding]
    split
    · rename_i hagain
      have hless := kind.remaining_reenter_lt state run hagain
      refine ((hbody _ (hreenter state run hinv)).imp ?_).andThen
      intro outcome hkept
      split
      · exact ih _ (hremaining ▸ hless) _ hkept rfl
      · rename_i result after hopen
        have hsettled : result ≠ .ok false := hopen
        exact kept_of_ended hsettled (hended _ _ _ (hkept.of_settled hsettled))
    · exact hfinish _ _ (hreenter state run hinv)

/-- Commands in order settle nothing only if the last one does not either. -/
theorem exists_open_of_inOrderEnding {start count : Nat}
    {step : (position : Nat) → start ≤ position → position < start + count → Run α →
      Ending ρ (Outcome α)} {run after : Run α}
    (hopen : inOrderEnding start count step run = .result (.ok false, after)) {last : Nat}
    (hlast : last + 1 = start + count) (habove : start ≤ last) :
    ∃ before, step last habove (by omega) before = .result (.ok false, after) := by
  induction count generalizing start run with
  | zero => omega
  | succ count ih =>
    rw [inOrderEnding] at hopen
    obtain ⟨first, hfirst, hrest⟩ := Ending.andThen_eq_result_iff.mp hopen
    split at hrest
    · rename_i mid
      obtain rfl | hbefore := Nat.eq_or_lt_of_le habove
      · obtain rfl : count = 0 := by omega
        rw [inOrderEnding] at hrest
        exact ⟨run, Ending.result.inj hrest ▸ hfirst⟩
      · exact ih hrest (by omega) hbefore
    · rename_i hsettled
      exact absurd (Ending.result.inj hrest) (hsettled after)

theorem inOrderEnding_congr {start count : Nat}
    {step other : (position : Nat) → start ≤ position → position < start + count → Run α →
      Ending ρ (Outcome α)}
    (hsame : ∀ position above below run, inv run →
      step position above below run = other position above below run)
    (hstep : ∀ position above below run, inv run →
      (other position above below run).Meets (Kept inv ended) crashes lasts)
    {run : Run α} (hinv : inv run) :
    inOrderEnding start count step run = inOrderEnding start count other run := by
  induction count generalizing start run with
  | zero => rfl
  | succ count ih =>
    have hfirst := hstep start (Nat.le_refl _) (by omega) run hinv
    rw [inOrderEnding, inOrderEnding, hsame start (Nat.le_refl _) (by omega) run hinv]
    generalize other start _ _ run = ending at hfirst
    cases ending with
    | crash | endless => rfl
    | result outcome =>
      simp only [Ending.andThen]
      split
      · exact ih (fun position above below => hsame position (by omega) (by omega))
          (fun position above below => hstep position (by omega) (by omega)) hfirst
      · rfl

theorem inOrderEnding_result (start count : Nat)
    (step : (position : Nat) → start ≤ position → position < start + count → Run α → Outcome α)
    (run : Run α) :
    (inOrderEnding start count (fun position above below run =>
        .result (step position above below run)) run : Ending ρ (Outcome α)) =
      .result (inOrder start count step run) := by
  induction count generalizing start run with
  | zero => rfl
  | succ count ih =>
    rw [inOrderEnding, inOrder, Ending.andThen]
    generalize step start _ _ run = outcome
    obtain ⟨error | settled, mid⟩ := outcome
    · rfl
    · cases settled with
      | false => exact ih _ _ mid
      | true => rfl

theorem LoopKind.roundsEnding_congr [Scalar α] {kind : LoopKind α}
    {body other : Run α → Ending ρ (Outcome α)} (hsame : ∀ run, inv run → body run = other run)
    (hbody : ∀ run, inv run → (other run).Meets (Kept inv ended) crashes lasts)
    (hreenter : ∀ state run, inv run → inv (kind.reenter state run).run)
    (state : kind.State) {run : Run α} (hinv : inv run) :
    kind.roundsEnding body state run = kind.roundsEnding other state run := by
  induction hremaining : kind.remaining state using Nat.strongRecOn generalizing state run with
  | _ remaining ih =>
    have hentered := hreenter state run hinv
    have hround := hbody _ hentered
    rw [roundsEnding, roundsEnding, hsame _ hentered]
    split
    · rename_i hagain
      have hless := kind.remaining_reenter_lt state run hagain
      generalize other (kind.reenter state run).run = ending at hround
      cases ending with
      | crash | endless => rfl
      | result outcome =>
        simp only [Ending.andThen]
        split
        · exact ih _ (hremaining ▸ hless) _ hround rfl
        · rfl
    · rfl

theorem LoopKind.roundsEnding_result [Scalar α] (kind : LoopKind α) (body : Run α → Outcome α)
    (state : kind.State) (run : Run α) :
    (kind.roundsEnding (fun run => .result (body run)) state run : Ending ρ (Outcome α)) =
      .result (kind.rounds body state run) := by
  induction hremaining : kind.remaining state using Nat.strongRecOn generalizing state run with
  | _ remaining ih =>
    rw [roundsEnding, rounds]
    split
    · rename_i hagain
      have hless := kind.remaining_reenter_lt state run hagain
      rw [Ending.andThen]
      generalize body (kind.reenter state run).run = outcome
      obtain ⟨error | settled, mid⟩ := outcome
      · rfl
      · cases settled with
        | false => exact ih _ (hremaining ▸ hless) _ mid rfl
        | true => rfl
    · rfl

end

namespace Sequence

variable {ρ : Type}

section
variable [Scalar α]

/-- What a condition on runs has to satisfy to be kept until a run of the sequence has ended. -/
structure Keeps (sequence : Sequence α) (perform : Command α → Run α → Ending ρ (Outcome α))
    (inv : Run α → Prop) (ended : Outcome α → Prop) (crashes lasts : ρ → Prop) : Prop where
  visit : ∀ {run} position command, inv run → inv (run.visit position command)
  reenter : ∀ (kind : LoopKind α) state {run}, inv run → inv (kind.reenter state run).run
  finish : ∀ (kind : LoopKind α) state {run}, inv run → inv (kind.finish state run)
  restore : ∀ (kind : LoopKind α) {run}, inv run → inv (kind.restoreDeclared run)
  finished : ∀ (kind : LoopKind α) state {result run},
    ended (result, run) → ended (result, kind.finish state run)
  single : ∀ {position entry}, sequence.entryAt? position = some entry →
    entry.command.loop? = none → ∀ {run}, inv run →
    (perform entry.command (run.visit position entry.id)).Meets (Kept inv ended) crashes lasts
  unresolved : ∀ {position entry loop}, sequence.entryAt? position = some entry →
    entry.command = .loop loop → loop.kind.needsTarget = true →
    sequence.targetPosition? position loop = none → ∀ {run}, inv run →
    ended (.error (.unresolvedTarget entry.id), run.visit position entry.id)

section Cases

variable {sequence : Sequence α} {perform : Command α → Run α → Ending ρ (Outcome α)}
  {position : Nat} {entry : Entry α} {loop : Loop α}

theorem endingAt_absent (hentry : sequence.entryAt? position = none) (returnLimit : Nat)
    (run : Run α) :
    sequence.endingAt perform position returnLimit run = .result (.ok false, run) := by
  rw [endingAt, hentry]

theorem endingAt_single (hentry : sequence.entryAt? position = some entry)
    (hsingle : entry.command.loop? = none) (returnLimit : Nat) (run : Run α) :
    sequence.endingAt perform position returnLimit run =
      perform entry.command (run.visit position entry.id) := by
  rw [endingAt, hentry]
  cases hcommand : entry.command with
  | loop loop => rw [hcommand] at hsingle; cases hsingle
  | line | point | area | leader | failure => simp only [hcommand]

theorem endingAt_reset (hentry : sequence.entryAt? position = some entry)
    (hloop : entry.command = .loop loop) (hneeds : loop.kind.needsTarget = false)
    (returnLimit : Nat) (run : Run α) :
    sequence.endingAt perform position returnLimit run =
      .result (.ok false, loop.kind.restoreDeclared (run.visit position entry.id)) := by
  rw [endingAt, hentry]
  simp only [hloop, hneeds]
  rfl

theorem endingAt_unresolved (hentry : sequence.entryAt? position = some entry)
    (hloop : entry.command = .loop loop) (hneeds : loop.kind.needsTarget = true)
    (htarget : sequence.targetPosition? position loop = none) (returnLimit : Nat) (run : Run α) :
    sequence.endingAt perform position returnLimit run =
      .result (.error (.unresolvedTarget entry.id), run.visit position entry.id) := by
  rw [endingAt, hentry]
  simp only [hloop, hneeds, htarget]
  rfl

theorem endingAt_rounds {declared : Nat} (hentry : sequence.entryAt? position = some entry)
    (hloop : entry.command = .loop loop) (hneeds : loop.kind.needsTarget = true)
    (htarget : sequence.targetPosition? position loop = some declared) (returnLimit : Nat)
    (run : Run α) :
    sequence.endingAt perform position returnLimit run =
      loop.kind.roundsEnding
        (inOrderEnding (effectiveStart declared returnLimit)
          (position - effectiveStart declared returnLimit)
          fun inner _ _ => sequence.endingAt perform inner (effectiveStart declared returnLimit))
        (loop.kind.begin (run.visit position entry.id)) (run.visit position entry.id) := by
  rw [endingAt, hentry]
  simp only [hloop, hneeds, htarget]
  rfl

end Cases

variable {sequence : Sequence α} {perform : Command α → Run α → Ending ρ (Outcome α)}
  {inv : Run α → Prop} {ended : Outcome α → Prop} {crashes lasts : ρ → Prop}

/-- **One command**, with the commands that its loop repeats. -/
theorem Keeps.endingAt (hkeeps : sequence.Keeps perform inv ended crashes lasts)
    (position returnLimit : Nat) {run : Run α} (hinv : inv run) :
    (sequence.endingAt perform position returnLimit run).Meets (Kept inv ended) crashes lasts := by
  induction position using Nat.strongRecOn generalizing returnLimit run with
  | _ position ih =>
    cases sequence.commandAt position with
    | absent hentry =>
      rw [endingAt_absent hentry]
      exact hinv
    | single hentry hsingle =>
      rw [endingAt_single hentry hsingle]
      exact hkeeps.single hentry hsingle hinv
    | reset hentry hloop hneeds =>
      rw [endingAt_reset hentry hloop hneeds]
      exact hkeeps.restore _ (hkeeps.visit _ _ hinv)
    | unresolved hentry hloop hneeds htarget =>
      rw [endingAt_unresolved hentry hloop hneeds htarget]
      exact hkeeps.unresolved hentry hloop hneeds htarget hinv
    | rounds hentry hloop hneeds htarget =>
      rw [endingAt_rounds hentry hloop hneeds htarget]
      refine LoopKind.meets_roundsEnding (fun run hinv => ?_)
        (fun state _ => hkeeps.reenter _ state) (fun state _ => hkeeps.finish _ state)
        (fun state _ _ => hkeeps.finished _ state) _ (hkeeps.visit _ _ hinv)
      exact meets_inOrderEnding (fun inner above below run hinv => ih inner (by omega) _ hinv) hinv

/-- What holds where two ways to perform single commands end alike, does so for the whole run. -/
theorem Keeps.endingAt_congr {other : Command α → Run α → Ending ρ (Outcome α)}
    (hkeeps : sequence.Keeps other inv ended crashes lasts)
    (hsame : ∀ {position entry}, sequence.entryAt? position = some entry →
      entry.command.loop? = none → ∀ {run}, inv run →
      perform entry.command (run.visit position entry.id) =
        other entry.command (run.visit position entry.id))
    (position returnLimit : Nat) {run : Run α} (hinv : inv run) :
    sequence.endingAt perform position returnLimit run =
      sequence.endingAt other position returnLimit run := by
  induction position using Nat.strongRecOn generalizing returnLimit run with
  | _ position ih =>
    cases sequence.commandAt position with
    | absent hentry => rw [endingAt_absent hentry, endingAt_absent hentry]
    | single hentry hsingle =>
      rw [endingAt_single hentry hsingle, endingAt_single hentry hsingle, hsame hentry hsingle hinv]
    | reset hentry hloop hneeds =>
      rw [endingAt_reset hentry hloop hneeds, endingAt_reset hentry hloop hneeds]
    | unresolved hentry hloop hneeds htarget =>
      rw [endingAt_unresolved hentry hloop hneeds htarget,
        endingAt_unresolved hentry hloop hneeds htarget]
    | @rounds entry loop declared hentry hloop hneeds htarget =>
      rw [endingAt_rounds hentry hloop hneeds htarget, endingAt_rounds hentry hloop hneeds htarget]
      generalize effectiveStart declared returnLimit = start
      have hinner : ∀ inner, start ≤ inner → inner < start + (position - start) →
          ∀ run, inv run →
            (sequence.endingAt other inner start run).Meets (Kept inv ended) crashes lasts :=
        fun inner _ _ _ hinv => hkeeps.endingAt inner start hinv
      refine LoopKind.roundsEnding_congr (fun run hinv => ?_)
        (fun run hinv => meets_inOrderEnding hinner hinv)
        (fun state _ => hkeeps.reenter _ state) _ (hkeeps.visit _ _ hinv)
      refine inOrderEnding_congr (fun inner above below run hinv => ?_) hinner hinv
      exact ih inner (by omega) start hinv

end

section
variable [Trigonometric α] {sequence : Sequence α}

/-- Where single commands come back with the outcomes that they have elsewhere, every command does
so. -/
theorem endingAt_performSingle (position returnLimit : Nat) (run : Run α) :
    (sequence.endingAt (fun command run => .result (performSingle command run)) position
        returnLimit run : Ending ρ (Outcome α)) =
      .result (sequence.executeAt position returnLimit run) := by
  induction position using Nat.strongRecOn generalizing returnLimit run with
  | _ position ih =>
    cases sequence.commandAt position with
    | absent hentry => rw [endingAt_absent hentry, executeAt_absent hentry]
    | single hentry hsingle => rw [endingAt_single hentry hsingle, executeAt_single hentry hsingle]
    | reset hentry hloop hneeds =>
      rw [endingAt_reset hentry hloop hneeds, executeAt_reset hentry hloop hneeds]
    | unresolved hentry hloop hneeds htarget =>
      rw [endingAt_unresolved hentry hloop hneeds htarget,
        executeAt_unresolved hentry hloop hneeds htarget]
    | rounds hentry hloop hneeds htarget =>
      rw [endingAt_rounds hentry hloop hneeds htarget, executeAt_rounds hentry hloop hneeds htarget,
        ← LoopKind.roundsEnding_result]
      congr 1
      funext run
      rw [← inOrderEnding_result]
      congr 1
      funext inner above below run
      exact ih inner (by omega) _ run

variable {inv : Run α → Prop} {ended : Outcome α → Prop} {crashes lasts : Performing α → Prop}
  {run : Run α}

/-- **A whole sequence.** -/
theorem Keeps.ending (hkeeps : sequence.Keeps Command.performing inv ended crashes lasts)
    (hinv : inv run) : (sequence.ending run).Meets (Kept inv ended) crashes lasts :=
  meets_inOrderEnding (fun position _ _ _ hinv => hkeeps.endingAt position 0 hinv) hinv

/-- A sequence crashes where its first command does. -/
theorem ending_eq_crash {entry : Entry α} (hentry : sequence.entryAt? 0 = some entry)
    (hsingle : entry.command.loop? = none)
    (hcrash : entry.command.ending (run.visit 0 entry.id) = .crash ()) :
    sequence.ending run = .crash ⟨entry.command, run.visit 0 entry.id⟩ := by
  obtain ⟨count, hcount⟩ := Nat.exists_eq_add_of_lt (List.getElem?_eq_some_iff.mp hentry).1
  rw [Nat.zero_add] at hcount
  rw [Sequence.ending, length, hcount, inOrderEnding, endingAt_single hentry hsingle,
    Command.performing, hcrash]
  rfl

/-- Where single commands come back as long as a condition holds, so does the whole sequence, with
the outcome that it has elsewhere. -/
theorem Keeps.ending_eq
    (hkeeps : sequence.Keeps (fun command run => .result (performSingle command run)) inv ended
      crashes lasts)
    (hsame : ∀ {position entry}, sequence.entryAt? position = some entry →
      entry.command.loop? = none → ∀ {run}, inv run →
      entry.command.ending (run.visit position entry.id) =
        .result (performSingle entry.command (run.visit position entry.id)))
    (hinv : inv run) : sequence.ending run = .result (sequence.execute run) := by
  have hkept : ∀ position, 0 ≤ position → position < 0 + sequence.length → ∀ run, inv run →
      (sequence.endingAt (fun command run => .result (performSingle command run)) position 0
        run).Meets (Kept inv ended) crashes lasts :=
    fun position _ _ _ hinv => hkeeps.endingAt position 0 hinv
  have hcongr : ∀ position, 0 ≤ position → position < 0 + sequence.length → ∀ run, inv run →
      sequence.endingAt Command.performing position 0 run =
        sequence.endingAt (fun command run => .result (performSingle command run)) position 0 run :=
    fun position _ _ _ hinv => hkeeps.endingAt_congr (fun hentry hsingle _ hinv =>
      Command.performing_eq_result_iff.mpr (hsame hentry hsingle hinv)) position 0 hinv
  rw [Sequence.ending, inOrderEnding_congr hcongr hkept hinv, execute, executeRange, Nat.min_self,
    Nat.sub_zero, ← inOrderEnding_result]
  congr 1
  funext position above below run
  exact endingAt_performSingle position 0 run

end

end Sequence

end LabelPlacement
