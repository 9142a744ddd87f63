import LabelPlacement.Sequence.Basic

/-!
# Parameters of commands

Commands are made, and their parameters changed, by functions that check the values they are given.
So the parameters of a loop are in range (`LoopKind.InRange`) however it was made and whatever has
been changed of it since. What can be changed of a command are the parameters and the target of a
loop. The rest of it is `Command.bare`, which is also all that loops look at when they accept a
target.
-/

namespace LabelPlacement

variable {α : Type}

theorem exists_of_bind_eq_ok {ε ι κ : Type} {attempt : Except ε ι} {next : ι → Except ε κ}
    {result : κ} (hresult : attempt >>= next = .ok result) :
    ∃ value, attempt = .ok value ∧ next value = .ok result := by
  cases attempt with
  | error error => cases hresult
  | ok value => exact ⟨value, rfl, hresult⟩

/-! ### Parameters in range -/

section Checks

variable [Scalar α]

theorem one_le_of_checkCount {parameter : String} {value : Int} {count : Nat}
    (hchecked : (checkCount parameter value : Except (LabelingError α) Nat) = .ok count) :
    1 ≤ count := by
  rw [checkCount] at hchecked
  split at hchecked
  · cases hchecked
    omega
  · cases hchecked

theorem lt_of_checkPercent {value percent : α} (hchecked : checkPercent value = .ok percent) :
    0 < percent ∧ percent < 100 := by
  rw [checkPercent] at hchecked
  split at hchecked
  · rename_i hrange
    cases hchecked
    exact hrange
  · cases hchecked

theorem pos_of_checkOverhang {value amount : α} (hchecked : checkOverhang value = .ok amount) :
    0 < amount ∧ Scalar.isFinite amount = true := by
  rw [checkOverhang] at hchecked
  split at hchecked
  · rename_i hrange
    cases hchecked
    exact hrange
  · cases hchecked

omit [Scalar α] in
theorem HideText.parse_ne_nil {text : String} {attempts : List HideAttempt}
    (hparsed : HideText.parse text = .ok attempts) : attempts ≠ [] := by
  rw [parse, HideText.attempts] at hparsed
  split at hparsed
  · cases hparsed
  · split at hparsed
    · cases hparsed
      simp
    · split at hparsed
      · split at hparsed
        · cases hparsed
        · cases hparsed
          simp
      · cases hparsed

omit [Scalar α] in
theorem ne_nil_of_readAttempts {text : String} {attempts : List HideAttempt}
    (hread : (readAttempts text : Except (LabelingError α) _) = .ok attempts) : attempts ≠ [] := by
  rw [readAttempts] at hread
  cases hparsed : HideText.parse text with
  | error error => rw [hparsed] at hread; cases hread
  | ok found =>
    rw [hparsed] at hread
    cases hread
    exact HideText.parse_ne_nil hparsed

omit [Scalar α] in
theorem ne_nil_of_checkAttempts {attempts checked : List HideAttempt}
    (hchecked : (checkAttempts attempts : Except (LabelingError α) _) = .ok checked) :
    checked ≠ [] := by
  rw [checkAttempts] at hchecked
  split at hchecked
  · cases hchecked
  · rename_i hattempts
    cases hchecked
    simpa using hattempts

/-- The parameters of a loop have values that they may be given. -/
def LoopKind.InRange : LoopKind α → Prop
  | .relax (.overhang amount) => 0 < amount ∧ Scalar.isFinite amount = true
  | .relax _ => True
  | .bufferSize _ steps _ => 1 ≤ steps
  | .fontSize steps percent _ => 1 ≤ steps ∧ 0 < percent ∧ percent < 100
  | .stack lines _ => 1 ≤ lines
  | .hide attempts => attempts ≠ []

/-- A loop that a command is has its parameters in range. -/
def Command.InRange : Command α → Prop
  | .loop found => found.kind.InRange
  | _ => True

/-- Commands as they can be made, with any values and for a loop with any target. -/
inductive Command.Made : Command α → Prop
  | line (placement : LinePlacement α) : Made (.line placement)
  | point (placement : PointPlacement α) : Made (.point placement)
  | area (placement : AreaPlacement α) : Made (.area placement)
  | failure (action : FailureAction) : Made (.failure action)
  | leader {timing : LeaderTiming} {maxLength : Option α} {command : Command α}
      (hmade : leaderLine timing maxLength = .ok command) : Made command
  | relax (relaxation : Relaxation α) (hplain : ∀ amount, relaxation ≠ .overhang amount) :
      Made (relax relaxation)
  | overhang {amount : α} {command : Command α} (hmade : overhang amount = .ok command) :
      Made command
  | bufferSize {buffer : BufferKind} {steps : Int} {action : LoopAction} {command : Command α}
      (hmade : bufferSize buffer steps action = .ok command) : Made command
  | fontSize {steps : Int} {percent : α} {action : LoopAction} {command : Command α}
      (hmade : fontSize steps percent action = .ok command) : Made command
  | stack {lines : Int} {action : LoopAction} {command : Command α}
      (hmade : stack lines action = .ok command) : Made command
  | hide {attempts : List HideAttempt} {command : Command α} (hmade : hide attempts = .ok command) :
      Made command
  | hideText {text : String} {command : Command α} (hmade : hideText text = .ok command) :
      Made command
  | withTarget {command : Command α} (hmade : Made command) (target : Option Nat) :
      Made (command.withTarget target)

theorem Command.inRange_of_hide {attempts : List HideAttempt} {command : Command α}
    (hmade : hide attempts = .ok command) : command.InRange := by
  obtain ⟨checked, hchecked, hmade⟩ := exists_of_bind_eq_ok hmade
  cases hmade
  exact ne_nil_of_checkAttempts hchecked

/-- **Made in range.** -/
theorem Command.Made.inRange {command : Command α} (hmade : command.Made) : command.InRange := by
  induction hmade with
  | line | point | area | failure => trivial
  | @leader timing maxLength command hmade =>
    cases maxLength with
    | none => cases hmade; trivial
    | some length =>
      obtain ⟨checked, _, hmade⟩ := exists_of_bind_eq_ok hmade
      cases hmade
      trivial
  | relax relaxation hplain =>
    cases relaxation with
    | overhang amount => exact absurd rfl (hplain amount)
    | offset | overline | overregion | bump => trivial
  | overhang hmade =>
    obtain ⟨amount, hamount, hmade⟩ := exists_of_bind_eq_ok hmade
    cases hmade
    exact pos_of_checkOverhang hamount
  | bufferSize hmade =>
    obtain ⟨steps, hsteps, hmade⟩ := exists_of_bind_eq_ok hmade
    cases hmade
    exact one_le_of_checkCount hsteps
  | fontSize hmade =>
    obtain ⟨steps, hsteps, hmade⟩ := exists_of_bind_eq_ok hmade
    obtain ⟨percent, hpercent, hmade⟩ := exists_of_bind_eq_ok hmade
    cases hmade
    exact ⟨one_le_of_checkCount hsteps, lt_of_checkPercent hpercent⟩
  | stack hmade =>
    obtain ⟨lines, hlines, hmade⟩ := exists_of_bind_eq_ok hmade
    cases hmade
    exact one_le_of_checkCount hlines
  | hide hmade => exact inRange_of_hide hmade
  | hideText hmade =>
    obtain ⟨attempts, _, hmade⟩ := exists_of_bind_eq_ok hmade
    exact inRange_of_hide hmade
  | @withTarget command _ target ih =>
    cases command with
    | loop loop => exact ih
    | line | point | area | leader | failure => trivial

end Checks

/-! ### What edits leave of a command -/

section Bare

variable [Scalar α]

/-- The loop kind without the parameters that can be changed. -/
def LoopKind.bare : LoopKind α → LoopKind α
  | .relax (.overhang _) => .relax (.overhang 0)
  | .relax relaxation => .relax relaxation
  | .bufferSize buffer _ action => .bufferSize buffer 0 action
  | .fontSize _ _ action => .fontSize 0 0 action
  | .stack _ action => .stack 0 action
  | .hide _ => .hide []

/-- The command without the parameters and the target that can be changed. -/
def Command.bare : Command α → Command α
  | .loop found => .loop { kind := found.kind.bare, target := none }
  | command => command

theorem LoopKind.ordinal_bare (kind : LoopKind α) : kind.bare.ordinal = kind.ordinal := by
  cases kind with
  | relax relaxation => cases relaxation <;> rfl
  | bufferSize | fontSize | stack | hide => rfl

theorem Command.tag_bare (command : Command α) : command.bare.tag = command.tag := by
  cases command with
  | line | point | area | leader | failure => rfl
  | loop found => rw [bare, tag, LoopKind.ordinal_bare, tag]

/-- Loops accept a command for what it is without its parameters. -/
theorem LoopKind.accepts_bare (kind : LoopKind α) (command : Command α) :
    kind.accepts command.bare = kind.accepts command := by
  unfold accepts
  rw [command.tag_bare]
  congr 1
  cases kind with
  | relax | fontSize | stack | hide => rfl
  | bufferSize buffer steps action =>
    cases command with
    | line | point | area | leader | failure => rfl
    | loop found =>
      obtain ⟨goal, target⟩ := found
      cases goal with
      | relax relaxation => cases relaxation <;> rfl
      | bufferSize | fontSize | stack | hide => rfl

theorem LoopKind.accepts_congr (kind : LoopKind α) {left right : Command α}
    (hbare : left.bare = right.bare) : kind.accepts left = kind.accepts right := by
  rw [← accepts_bare, hbare, accepts_bare]

/-- What a loop accepts does not depend on its parameters. -/
theorem LoopKind.bare_accepts (kind : LoopKind α) (command : Command α) :
    kind.bare.accepts command = kind.accepts command := by
  cases kind with
  | relax relaxation => cases relaxation <;> rfl
  | fontSize | stack | hide => rfl
  | bufferSize =>
    cases command with
    | line | point | area | leader | failure => rfl
    | loop found =>
      obtain ⟨goal, target⟩ := found
      cases goal <;> rfl

theorem LoopKind.isReset_bare (kind : LoopKind α) : kind.bare.isReset = kind.isReset := by
  cases kind with
  | relax relaxation => cases relaxation <;> rfl
  | bufferSize | fontSize | stack | hide => rfl

/-- **Parameters.** A parameter that is changed has a value that it may be given, and the rest of
the loop is as before. -/
theorem Setting.changeKind?_eq_ok {setting : Setting α} {kind changed : LoopKind α}
    (hchanged : setting.changeKind? kind = some (.ok changed)) :
    changed.bare = kind.bare ∧ (kind.InRange → changed.InRange) := by
  unfold changeKind? at hchanged
  split at hchanged
  · obtain ⟨steps, hsteps, hmade⟩ := exists_of_bind_eq_ok (Option.some.inj hchanged)
    cases hmade
    exact ⟨rfl, fun _ => one_le_of_checkCount hsteps⟩
  · obtain ⟨steps, hsteps, hmade⟩ := exists_of_bind_eq_ok (Option.some.inj hchanged)
    cases hmade
    exact ⟨rfl, fun hrange => ⟨one_le_of_checkCount hsteps, hrange.2⟩⟩
  · obtain ⟨percent, hpercent, hmade⟩ := exists_of_bind_eq_ok (Option.some.inj hchanged)
    cases hmade
    exact ⟨rfl, fun hrange => ⟨hrange.1, lt_of_checkPercent hpercent⟩⟩
  · obtain ⟨lines, hlines, hmade⟩ := exists_of_bind_eq_ok (Option.some.inj hchanged)
    cases hmade
    exact ⟨rfl, fun _ => one_le_of_checkCount hlines⟩
  · obtain ⟨amount, hamount, hmade⟩ := exists_of_bind_eq_ok (Option.some.inj hchanged)
    cases hmade
    exact ⟨rfl, fun _ => pos_of_checkOverhang hamount⟩
  · obtain ⟨attempts, hattempts, hmade⟩ := exists_of_bind_eq_ok (Option.some.inj hchanged)
    cases hmade
    exact ⟨rfl, fun _ => ne_nil_of_readAttempts hattempts⟩
  · cases hchanged

/-- The setting changes a parameter and not the target of a loop. -/
def Setting.IsParameter (setting : Setting α) : Prop := ∀ target, setting ≠ .target target

theorem Setting.change?_eq_ok {setting : Setting α} (hsetting : setting.IsParameter)
    {command changed : Command α} (hchanged : setting.change? command = some (.ok changed)) :
    ∃ loop kind, command = .loop loop ∧ changed = .loop { loop with kind } ∧
      kind.bare = loop.kind.bare ∧ (loop.kind.InRange → kind.InRange) := by
  unfold change? at hchanged
  split at hchanged
  · exact absurd rfl (hsetting _)
  · rename_i loop _
    obtain ⟨attempt, hattempt, hmade⟩ := Option.map_eq_some_iff.mp hchanged
    obtain ⟨kind, rfl, hmade⟩ := exists_of_bind_eq_ok hmade
    cases hmade
    obtain ⟨hbare, hrange⟩ := changeKind?_eq_ok hattempt
    exact ⟨loop, kind, rfl, rfl, hbare, hrange⟩
  · cases hchanged

end Bare

end LabelPlacement
