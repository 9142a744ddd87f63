import Mathlib.Analysis.SpecialFunctions.Complex.Arg
import LabelPlacement.Proofs.Parameters
import LabelPlacement.Proofs.Points
import LabelPlacement.Proofs.Rules

/-!
# Ranges of the style of the moment

With exact numbers, loops over the font size and the buffers keep to a range, however they are
nested. A reduction is from the value that the loop found when it began, which need not be the
declared one, and a loop that returns to the declared style may do so in the middle of another one.
So the range is a condition on the request and on the states of the loops under way alike: what a
loop found was in range, what it sets is in range (`FontSizeWithin.reduced`,
`BufferWithin.reduced`), and what it gives back is what it found.
-/

namespace LabelPlacement

/-! ### Commands and their parameters -/

/-- Commands as they can be made, with parameters and targets changed afterwards. -/
inductive Command.Configured {α : Type} [Scalar α] : Command α → Prop
  | made {command : Command α} (hmade : command.Made) : Configured command
  | changed {command changed : Command α} (setting : Setting α) (hconfigured : Configured command)
      (hchanged : setting.change? command = some (.ok changed)) : Configured changed

theorem Command.Configured.inRange {α : Type} [Scalar α] {command : Command α}
    (hconfigured : command.Configured) : command.InRange := by
  induction hconfigured with
  | made hmade => exact hmade.inRange
  | @changed command changed setting _ hchanged ih =>
    by_cases hparameter : setting.IsParameter
    · obtain ⟨loop, kind, rfl, rfl, -, hkept⟩ := Setting.change?_eq_ok hparameter hchanged
      exact hkept ih
    · obtain ⟨target, rfl⟩ : ∃ target, setting = .target target := by
        simpa [Setting.IsParameter] using hparameter
      cases command with
      | loop loop =>
        obtain rfl := Except.ok.inj (Option.some.inj hchanged)
        exact ih
      | line | point | area | leader | failure => cases hchanged

/-! ### One value -/

/-- A font size is the declared one, or smaller and no smaller than the least one. -/
def FontSizeWithin (declared least size : ℝ) : Prop :=
  size = declared ∨ (0 < size ∧ size < declared ∧ least ≤ size)

/-- A buffer is at most the declared one. -/
def BufferWithin (declared buffer : ℝ) : Prop := 0 ≤ buffer ∧ buffer ≤ declared

namespace FontSizeWithin

variable {declared least entry percent : ℝ}

theorem pos (hdeclared : 0 < declared) (hentry : FontSizeWithin declared least entry) :
    0 < entry := by
  obtain rfl | ⟨hpos, -, -⟩ := hentry
  · exact hdeclared
  · exact hpos

theorem le (hentry : FontSizeWithin declared least entry) : entry ≤ declared := by
  obtain rfl | ⟨-, hlt, -⟩ := hentry
  · exact le_rfl
  · exact hlt.le

/-- A step that a loop takes makes the size smaller than the one that it found. -/
theorem reduced (hdeclared : 0 < declared) (hentry : FontSizeWithin declared least entry)
    (hpercent : 0 < percent) (step : Nat)
    (hpos : 0 < LoopKind.reducedFontSize entry percent (step + 1))
    (hleast : least ≤ LoopKind.reducedFontSize entry percent (step + 1)) :
    FontSizeWithin declared least (LoopKind.reducedFontSize entry percent (step + 1)) := by
  have hreduced : LoopKind.reducedFontSize entry percent (step + 1) =
      entry * (1 - ((step + 1 : Nat) : ℝ) * percent / 100) := by
    change entry * (((1 : Nat) : ℝ) - ((step + 1 : Nat) : ℝ) * percent / ((100 : Nat) : ℝ)) = _
    rw [Nat.cast_one, Nat.cast_ofNat]
  have hshare : 0 < ((step + 1 : Nat) : ℝ) * percent / 100 := by positivity
  refine Or.inr ⟨hpos, ?_, hleast⟩
  calc LoopKind.reducedFontSize entry percent (step + 1)
      = entry * (1 - ((step + 1 : Nat) : ℝ) * percent / 100) := hreduced
    _ < entry * 1 := mul_lt_mul_of_pos_left (by linarith) (hentry.pos hdeclared)
    _ = entry := mul_one entry
    _ ≤ declared := hentry.le

end FontSizeWithin

/-- A step that a loop takes makes the buffer no larger than the one that it found. -/
theorem BufferWithin.reduced {declared entry : ℝ} (hentry : BufferWithin declared entry)
    (steps step : Nat) : BufferWithin declared (LoopKind.reducedBuffer entry steps step) := by
  have hreduced : LoopKind.reducedBuffer entry steps step =
      max (entry * (1 - (step : ℝ) / (steps : ℝ))) 0 := by
    rw [LoopKind.reducedBuffer, Scalar.larger_eq_max, Scalar.numeral_eq, Scalar.numeral_eq,
      Nat.cast_one, Nat.cast_zero]
    rfl
  have hshare : 0 ≤ (step : ℝ) / (steps : ℝ) := by positivity
  rw [BufferWithin, hreduced]
  refine ⟨le_max_right _ _, max_le ?_ (hentry.1.trans hentry.2)⟩
  calc entry * (1 - (step : ℝ) / (steps : ℝ)) ≤ entry * 1 :=
        mul_le_mul_of_nonneg_left (by linarith) hentry.1
    _ = entry := mul_one entry
    _ ≤ declared := hentry.2

/-! ### The style of the moment -/

/-- A font size and buffers in the ranges that a declared style and a least font size leave. -/
structure SizesWithin (style : Style ℝ) (least fontSize : ℝ) (buffers : Buffers ℝ) : Prop where
  fontSize : FontSizeWithin style.fontSize least fontSize
  buffer : ∀ kind : BufferKind, BufferWithin (style.buffers.get kind) (buffers.get kind)

theorem Buffers.get_set_self {α : Type} (buffers : Buffers α) (kind : BufferKind) (value : α) :
    (buffers.set kind value).get kind = value := by
  cases kind <;> rfl

theorem Buffers.get_set_of_ne {α : Type} (buffers : Buffers α) {kind other : BufferKind}
    (hother : other ≠ kind) (value : α) :
    (buffers.set kind value).get other = buffers.get other := by
  cases kind <;> cases other <;> first | rfl | exact absurd rfl hother

namespace SizesWithin

variable {style : Style ℝ} {least fontSize : ℝ} {buffers : Buffers ℝ}

theorem declared (style : Style ℝ) (least : ℝ)
    (hbuffers : ∀ kind : BufferKind, 0 ≤ style.buffers.get kind) :
    SizesWithin style least style.fontSize style.buffers :=
  ⟨Or.inl rfl, fun kind => ⟨hbuffers kind, le_rfl⟩⟩

theorem setFontSize (hwithin : SizesWithin style least fontSize buffers) {size : ℝ}
    (hsize : FontSizeWithin style.fontSize least size) : SizesWithin style least size buffers :=
  ⟨hsize, hwithin.buffer⟩

theorem setBuffer (hwithin : SizesWithin style least fontSize buffers) {kind : BufferKind}
    {value : ℝ} (hvalue : BufferWithin (style.buffers.get kind) value) :
    SizesWithin style least fontSize (buffers.set kind value) := by
  refine ⟨hwithin.fontSize, fun other => ?_⟩
  by_cases hother : other = kind
  · rw [hother, Buffers.get_set_self]
    exact hvalue
  · rw [Buffers.get_set_of_ne _ hother]
    exact hwithin.buffer other

/-- What is hidden does not touch the sizes. -/
theorem of_shown_eq {before after : Request ℝ}
    (hwithin : SizesWithin style least before.working.fontSize before.working.buffers)
    (hshown : after.shown = before.shown) :
    SizesWithin style least after.working.fontSize after.working.buffers := by
  have hfontSize := congrArg (fun request : Request ℝ => request.working.fontSize) hshown
  have hbuffers := congrArg (fun request : Request ℝ => request.working.buffers) hshown
  simp only [Request.shown] at hfontSize hbuffers
  rwa [hfontSize, hbuffers]

end SizesWithin

/-- A run in the course of which the sizes keep to their ranges: the style declared and the least
font size are given, and the sizes are in range, as they were at every visit. -/
structure Run.SizesKept (style : Style ℝ) (least : ℝ) (run : Run ℝ) : Prop where
  declared : run.request.style = style
  limit : run.workspace.options.minFontSize = least
  now : SizesWithin style least run.request.working.fontSize run.request.working.buffers
  visits : ∀ visit ∈ run.visits,
    SizesWithin style least visit.request.working.fontSize visit.request.working.buffers

/-- The state of a loop under way has the value that the loop found in range. -/
def LoopKind.EntryWithin (style : Style ℝ) (least : ℝ) : (kind : LoopKind ℝ) → kind.State → Prop
  | .bufferSize buffer _ _, state => BufferWithin (style.buffers.get buffer) state.entry
  | .fontSize .., state => FontSizeWithin style.fontSize least state.entry
  | .relax _, _ | .stack .., _ | .hide _, _ => True

section Kept

variable {style : Style ℝ} {least : ℝ} {run : Run ℝ}

theorem Run.SizesKept.of_agrees {after : Run ℝ} (hkept : run.SizesKept style least)
    (hagrees : run.Agrees after)
    (hnow : SizesWithin style least after.request.working.fontSize after.request.working.buffers) :
    after.SizesKept style least where
  declared := (congrArg Request.style hagrees.declared).trans hkept.declared
  limit := by rw [hagrees.workspace, hkept.limit]
  now := hnow
  visits := hagrees.visits ▸ hkept.visits

theorem Run.SizesKept.settled {after : Run ℝ} (hkept : run.SizesKept style least)
    (hsettled : Settled run after) : after.SizesKept style least := by
  cases hsettled with
  | placed | deferred | suppressed => exact ⟨hkept.declared, hkept.limit, hkept.now, hkept.visits⟩

namespace LoopKind

theorem entryWithin_begin (kind : LoopKind ℝ) (hkept : run.SizesKept style least) :
    kind.EntryWithin style least (kind.begin run) := by
  cases kind with
  | bufferSize buffer => exact hkept.now.buffer buffer
  | fontSize => exact hkept.now.fontSize
  | relax | stack | hide => trivial

/-- What a round of a loop begins with is in range. -/
theorem sizesWithin_reenter (hpositive : 0 < style.fontSize) (kind : LoopKind ℝ)
    (hrange : kind.InRange) (state : kind.State) (hentry : kind.EntryWithin style least state)
    (hkept : run.SizesKept style least) :
    kind.EntryWithin style least (kind.reenter state run).state ∧
      SizesWithin style least (kind.reenter state run).run.request.working.fontSize
        (kind.reenter state run).run.request.working.buffers := by
  match kind, state with
  | .relax _, state =>
    rw [reenter]
    split <;> exact ⟨trivial, hkept.now⟩
  | .bufferSize buffer steps action, state =>
    simp only [reenter]
    split
    · split <;> exact ⟨hentry, hkept.now⟩
    · split
      · exact ⟨hentry, hkept.now⟩
      · exact ⟨hentry, hkept.now.setBuffer (BufferWithin.reduced hentry steps (state.step + 1))⟩
  | .fontSize steps percent action, state =>
    simp only [reenter]
    split
    · split <;> exact ⟨hentry, hkept.now⟩
    · split
      · exact ⟨hentry, hkept.now⟩
      · rename_i hgoesOn
        rw [not_or, not_or, not_le, not_le, not_lt, hkept.limit, Scalar.numeral_eq,
          Nat.cast_zero] at hgoesOn
        have hpercent : 0 < percent := by
          have hchecked := hrange.2.1
          rwa [Scalar.numeral_eq, Nat.cast_zero] at hchecked
        exact ⟨hentry, hkept.now.setFontSize
          (hentry.reduced hpositive hpercent state.step hgoesOn.2.1 hgoesOn.2.2)⟩
  | .stack .., state =>
    rw [reenter]
    split
    · split <;> exact ⟨trivial, hkept.now⟩
    · split
      · exact ⟨trivial, hkept.now⟩
      · split
        · exact ⟨trivial, hkept.now⟩
        · rename_i stacked hstacked
          rw [Request.eq_withStackLines_of_stack? hstacked]
          exact ⟨trivial, hkept.now⟩
  | .hide _, state =>
    refine ⟨trivial, hkept.now.of_shown_eq ?_⟩
    rw [reenter, HideAttempt.shown_firstUsable, Request.shown_foldl_restore]

theorem sizesWithin_finish (kind : LoopKind ℝ) (state : kind.State)
    (hentry : kind.EntryWithin style least state) (hkept : run.SizesKept style least) :
    SizesWithin style least (kind.finish state run).request.working.fontSize
      (kind.finish state run).request.working.buffers := by
  match kind, state with
  | .relax _, _ => exact hkept.now
  | .bufferSize .., state => exact hkept.now.setBuffer hentry
  | .fontSize .., state => exact hkept.now.setFontSize hentry
  | .hide _, state => exact hkept.now.of_shown_eq (Request.shown_foldl_restore _ _)
  | .stack .., state =>
    simp only [finish, Run.mapRequest]
    split
    · exact hkept.now
    · cases hstacked : run.request.stack? state.entry with
      | none => exact hkept.now
      | some stacked =>
        rw [Request.eq_withStackLines_of_stack? hstacked]
        exact hkept.now

theorem sizesWithin_restoreDeclared (hbuffers : ∀ kind : BufferKind, 0 ≤ style.buffers.get kind)
    (kind : LoopKind ℝ) (hkept : run.SizesKept style least) :
    SizesWithin style least (kind.restoreDeclared run).request.working.fontSize
      (kind.restoreDeclared run).request.working.buffers := by
  cases kind with
  | relax | stack | hide => exact hkept.now
  | bufferSize buffer =>
    have hdeclared : run.request.style.buffers.get buffer = style.buffers.get buffer := by
      rw [hkept.declared]
    exact hkept.now.setBuffer ⟨hdeclared ▸ hbuffers buffer, hdeclared.le⟩
  | fontSize => exact hkept.now.setFontSize (Or.inl (congrArg Style.fontSize hkept.declared))

end LoopKind

end Kept

/-! ### Sizes that are reached -/

theorem checkPercent_eq_ok (value : ℝ) (hpositive : 0 < value) (hbelow : value < 100) :
    checkPercent value = .ok value := by
  rw [checkPercent, Scalar.numeral_eq, Scalar.numeral_eq]
  rw [if_pos ⟨by simpa using hpositive, by simpa using hbelow⟩]

theorem LoopKind.reenter_fontSize_of_le {steps step : Nat} {percent entry size : ℝ} {run : Run ℝ}
    (hstep : step < steps) (hsize : LoopKind.reducedFontSize entry percent (step + 1) = size)
    (hpositive : 0 < size) (hleast : run.workspace.options.minFontSize ≤ size) :
    (LoopKind.fontSize steps percent .reduce).reenter ⟨entry, step⟩ run =
      ⟨true, ⟨entry, step + 1⟩, run.mapRequest (·.setFontSize size)⟩ := by
  simp only [LoopKind.reenter_fontSize, hsize, Scalar.numeral_eq, Nat.cast_zero]
  exact if_pos ⟨hstep, not_le.mpr hpositive, not_lt.mpr hleast⟩

namespace Sequence

variable {sequence : Sequence ℝ}

/-- A label is not placed on a point that is inside of another label. -/
theorem performSingle_point_of_covered (run : Run ℝ) {spot : Point ℝ} {other : Nat} {box : Box ℝ}
    (hshape : run.request.shape = .point spot) (hsymbol : run.request.symbol = none)
    (hbump : run.relaxations.bump = false)
    (hentered : ⟨.label other, box⟩ ∈ run.workspace.index.entries)
    (hother : other ≠ run.request.id) (hx : box.lower.x < spot.x ∧ spot.x < box.upper.x)
    (hy : box.lower.y < spot.y ∧ spot.y < box.upper.y) :
    ∃ ideal, performSingle (.point ⟨[.onPoint], 0⟩) run = (.ok false, { run with ideal }) := by
  have hblocked : ∀ candidate ∈ PointPlacement.candidates ⟨[.onPoint], 0⟩ run spot [],
      run.conflicts candidate.bounds ≠ [] := by
    intro candidate hmem
    obtain ⟨factor, -, hmem⟩ := List.mem_flatMap.mp hmem
    obtain rfl := List.mem_singleton.mp hmem
    have hangle : Trigonometric.ofDegrees (0 : ℝ) = ((0 : Nat) : ℝ) := by
      rw [Trigonometric.ofDegrees, zero_mul, Nat.cast_zero]
    have hnone : (Scalar.ofInt 0 : ℝ) = 0 := Nat.cast_zero
    have hholds := Box.holds_step spot run.extent.1 run.extent.2 .onPoint
    simp only [Compass.displacement, Compass.direction, hnone, zero_mul, sub_zero,
      ← ofAngle_zero, ← hangle] at hholds
    exact Run.conflicts_ne_nil_of_holds hentered hother hholds hx hy
  obtain ⟨ideal, hplaced⟩ := Run.placeFirst_of_blocked hbump hblocked fun _ => true
  refine ⟨ideal, ?_⟩
  rw [performSingle, PointPlacement.perform, hshape]
  simp only [hsymbol, Option.elim_none, hplaced]

theorem leads_past_covered {number : Nat} {spot : Point ℝ} {other : Nat} {box : Box ℝ}
    (hentry : sequence.entryAt? 0 = some ⟨number, .point ⟨[.onPoint], 0⟩⟩) (run : Run ℝ)
    (finish returnLimit : Nat) (pending : List (Pending ℝ)) (hnext : 0 < finish)
    (hshape : run.request.shape = .point spot) (hsymbol : run.request.symbol = none)
    (hbump : run.relaxations.bump = false)
    (hentered : ⟨.label other, box⟩ ∈ run.workspace.index.entries)
    (hother : other ≠ run.request.id) (hx : box.lower.x < spot.x ∧ spot.x < box.upper.x)
    (hy : box.lower.y < spot.y ∧ spot.y < box.upper.y) :
    ∃ ideal, sequence.Leads ⟨.commands 0 finish returnLimit :: pending, .ok false, run⟩
      ⟨.commands 1 finish returnLimit :: pending, .ok false,
        { run.visit 0 number with ideal }⟩ := by
  obtain ⟨ideal, hplaced⟩ := performSingle_point_of_covered (run.visit 0 number) hshape
    hsymbol hbump hentered hother hx hy
  refine ⟨ideal, .of_step ?_⟩
  rw [step_commands hnext, enter, hentry]
  exact congrArg (Progress.mk _) hplaced

end Sequence

/-! ### Every point of a run -/

namespace Sequence

variable {sequence : Sequence ℝ} {style : Style ℝ} {least : ℝ}

theorem maintains_sizes (hconfigured : ∀ entry ∈ sequence.entries, entry.command.Configured)
    (hpositive : 0 < style.fontSize) (hbuffers : ∀ kind : BufferKind, 0 ≤ style.buffers.get kind) :
    sequence.Maintains (Run.SizesKept style least) (LoopKind.EntryWithin style least) where
  visit position command hkept := by
    refine ⟨hkept.declared, hkept.limit, hkept.now, fun visit hmem => ?_⟩
    obtain rfl | hearlier := List.mem_cons.mp hmem
    · exact hkept.now
    · exact hkept.visits visit hearlier
  note _ hkept := ⟨hkept.declared, hkept.limit, hkept.now, hkept.visits⟩
  begins kind _ hkept := kind.entryWithin_begin hkept
  reenter hentry hloop _ _ hstate hkept := by
    have hrange := (hconfigured _ (List.mem_of_getElem? hentry)).inRange
    rw [hloop] at hrange
    obtain ⟨hstate, hnow⟩ := LoopKind.sizesWithin_reenter hpositive _ hrange _ hstate hkept
    exact ⟨hstate, hkept.of_agrees (LoopKind.agrees_reenter _ _ _) hnow⟩
  finish kind _ _ hstate hkept :=
    hkept.of_agrees (kind.agrees_finish _ _) (kind.sizesWithin_finish _ hstate hkept)
  restore kind _ hkept :=
    hkept.of_agrees (kind.agrees_restoreDeclared _)
      (kind.sizesWithin_restoreDeclared hbuffers hkept)

/-- **Ranges.** A run of a request that is reset comes to its end, and at every point up to there
the font size is the declared one or else a positive one below it that is no smaller than the least
one, and the buffers are between nothing and the declared ones. It was so whenever a command was
carried out, and a placement that is recorded has a font size and buffers in these ranges. -/
theorem sizes_stay_in_range (hconfigured : ∀ entry ∈ sequence.entries, entry.command.Configured)
    (workspace : Workspace ℝ) {request : Request ℝ} (hpositive : 0 < request.style.fontSize)
    (hlabel : 0 ≤ request.style.buffers.label) (hfeature : 0 ≤ request.style.buffers.feature) :
    let start : Run ℝ := .start workspace request.reset
    let within := SizesWithin request.style workspace.options.minFontSize
    (∃ steps, sequence.progress start steps = ⟨[], sequence.execute start⟩) ∧
    ∀ steps,
      let run := (sequence.progress start steps).outcome.2
      within run.request.working.fontSize run.request.working.buffers ∧
      (∀ visit ∈ run.visits, within visit.request.working.fontSize visit.request.working.buffers) ∧
      ∀ placement, run.request.placement = some placement →
        within placement.fontSize placement.buffers := by
  intro start within
  refine ⟨sequence.exists_progress_eq start, fun steps => ?_⟩
  intro run
  have hbuffers : ∀ kind : BufferKind, 0 ≤ request.style.buffers.get kind := by
    rintro (_ | _)
    · exact hlabel
    · exact hfeature
  have hstart : start.SizesKept request.style workspace.options.minFontSize := by
    refine ⟨?_, rfl, ?_, fun _ hmem => absurd hmem List.not_mem_nil⟩
    · rw [show start.request = request.reset from rfl, Request.reset_eq]
      rfl
    · rw [show start.request = request.reset from rfl, Request.reset_eq]
      exact .declared request.style _ hbuffers
  have hrun : run.SizesKept request.style workspace.options.minFontSize :=
    (maintains_sizes hconfigured hpositive hbuffers).at_every_point
      (fun _ _ hkept hsettled => hkept.settled hsettled) hstart steps
  refine ⟨hrun.now, hrun.visits, fun placement hplacement => ?_⟩
  obtain hsame | ⟨visit, hmem, recorded, hrecorded, htells⟩ :=
    sequence.records_of_visits start steps
  · cases hplacement.symm.trans hsame
  · obtain rfl := Option.some.inj (hplacement.symm.trans hrecorded)
    have hvisit := hrun.visits visit hmem
    rwa [← htells.fontSize, ← htells.buffers] at hvisit

/-- The point of a town is inside of another label. The buffer of the town is taken away inside of a
loop over its font, and there is a moment when the font is smaller as well. The loop over the font
gets another percentage after it is made. -/
theorem shrinking_town_stays_in_range :
    let sequence : Sequence ℝ :=
      { entries := [⟨1, .point ⟨[.onPoint], 0⟩⟩, ⟨2, .loop ⟨.bufferSize .label 1 .reduce, some 1⟩⟩,
          ⟨3, .loop ⟨.fontSize 3 20 .reduce, some 1⟩⟩]
        nextId := 4 }
    let workspace : Workspace ℝ :=
      { Workspace.empty .standard with index := ⟨[⟨.label 2, ⟨⟨-1, -1⟩, ⟨1, 1⟩⟩⟩]⟩ }
    let request : Request ℝ :=
      .create 1 1 "town" (.point ⟨0, 0⟩) (.single "Ab") ⟨10, ⟨2, 1⟩⟩
    let start : Run ℝ := .start workspace request.reset
    (∀ entry ∈ sequence.entries, entry.command.Configured) ∧
      0 < request.style.fontSize ∧ 0 ≤ request.style.buffers.label ∧
      0 ≤ request.style.buffers.feature ∧
      ∃ steps,
        let working := (sequence.progress start steps).outcome.2.request.working
        working.fontSize = 8 ∧ working.buffers = ⟨0, 1⟩ ∧
          SizesWithin request.style workspace.options.minFontSize working.fontSize
            working.buffers := by
  intro sequence workspace request start
  have hpoint : (Command.point ⟨[.onPoint], 0⟩ : Command ℝ).Configured := .made (.point _)
  have hbuffer : (Command.loop ⟨.bufferSize .label 1 .reduce, some 1⟩ : Command ℝ).Configured := by
    have hmade : Command.bufferSize .label 1 .reduce =
        .ok (.untargeted (.bufferSize .label 1 .reduce) : Command ℝ) := rfl
    exact .made (.withTarget (.bufferSize hmade) (some 1))
  have hfont : (Command.loop ⟨.fontSize 3 20 .reduce, some 1⟩ : Command ℝ).Configured := by
    have hmade : (Command.fontSize 3 (10 : ℝ) .reduce) =
        .ok (.untargeted (.fontSize 3 10 .reduce)) := by
      rw [Command.fontSize, checkPercent_eq_ok 10 (by norm_num) (by norm_num)]
      rfl
    have hbase : (Command.loop ⟨.fontSize 3 10 .reduce, some 1⟩ : Command ℝ).Configured :=
      .made (.withTarget (.fontSize hmade) (some 1))
    refine hbase.changed (.percent 20) ?_
    simp only [Setting.change?, Setting.changeKind?,
      checkPercent_eq_ok 20 (by norm_num) (by norm_num)]
    rfl
  have hconfigured : ∀ entry ∈ sequence.entries, entry.command.Configured := by
    simp [sequence, hpoint, hfont, hbuffer]
  have hpositive : 0 < request.style.fontSize := by
    change (0 : ℝ) < 10
    norm_num
  have hlabel : 0 ≤ request.style.buffers.label := by
    change (0 : ℝ) ≤ 2
    norm_num
  have hfeature : 0 ≤ request.style.buffers.feature := by
    change (0 : ℝ) ≤ 1
    norm_num
  have hentered : ⟨.label 2, ⟨⟨-1, -1⟩, ⟨1, 1⟩⟩⟩ ∈ workspace.index.entries :=
    List.mem_singleton_self _
  have hdiffers : 2 ≠ request.id := by decide
  have hinside : (-1 : ℝ) < 0 ∧ (0 : ℝ) < 1 := ⟨by norm_num, by norm_num⟩
  have hentry : sequence.entryAt? 0 = some ⟨1, .point ⟨[.onPoint], 0⟩⟩ := rfl
  -- The inner loop has its round before the outer one begins, and again in the first round of that.
  obtain ⟨first, hfirst⟩ := leads_past_covered hentry start 3 0 [] (by decide) rfl rfl rfl
    hentered hdiffers hinside hinside
  set tried := { start.visit 0 1 with ideal := first }
  set narrow := (tried.visit 1 2).mapRequest (·.setBuffer .label (LoopKind.reducedBuffer 2 1 1))
  obtain ⟨second, hsecond⟩ := leads_past_covered hentry narrow 1 0
    [.rounds (.bufferSize .label 1 .reduce) ⟨2, 1⟩ 0 1, .commands 2 3 0] (by decide) rfl rfl rfl
    hentered hdiffers hinside hinside
  set wide := Run.mapRequest { narrow.visit 0 1 with ideal := second } (·.setBuffer .label 2)
  set small := (wide.visit 2 3).mapRequest (·.setFontSize 8)
  obtain ⟨third, hthird⟩ := leads_past_covered hentry small 2 0
    [.rounds (.fontSize 3 20 .reduce) ⟨10, 1⟩ 0 2, .commands 3 3 0] (by decide) rfl rfl rfl
    hentered hdiffers hinside hinside
  set inner := (Run.visit { small.visit 0 1 with ideal := third } 1 2).mapRequest
    (·.setBuffer .label (LoopKind.reducedBuffer 2 1 1))
  have hnarrow : sequence.Leads ⟨[.commands 1 3 0], .ok false, tried⟩
      ⟨[.commands 0 1 0, .rounds (.bufferSize .label 1 .reduce) ⟨2, 1⟩ 0 1, .commands 2 3 0],
        .ok false, narrow⟩ :=
    (Leads.of_step rfl).trans (.of_step rfl)
  have hwide : sequence.Leads
      ⟨[.commands 1 1 0, .rounds (.bufferSize .label 1 .reduce) ⟨2, 1⟩ 0 1, .commands 2 3 0],
        .ok false, { narrow.visit 0 1 with ideal := second }⟩
      ⟨[.commands 2 3 0], .ok false, wide⟩ :=
    (Leads.of_step rfl).trans (.of_step rfl)
  have hsmall : sequence.Leads ⟨[.commands 2 3 0], .ok false, wide⟩
      ⟨[.commands 0 2 0, .rounds (.fontSize 3 20 .reduce) ⟨10, 1⟩ 0 2, .commands 3 3 0], .ok false,
        small⟩ := by
    refine (Leads.of_step rfl).trans (.of_step ?_)
    have hone : (Scalar.ofNat 1 : ℝ) = 1 := Nat.cast_one
    have hsize : LoopKind.reducedFontSize (10 : ℝ) 20 1 = 8 := by
      simp only [LoopKind.reducedFontSize, Scalar.numeral_eq, hone]
      norm_num
    have hleast : workspace.options.minFontSize ≤ 8 := hone.trans_le (by norm_num)
    have hround : (LoopKind.fontSize 3 20 .reduce).reenter ⟨10, 0⟩ (wide.visit 2 3) =
        ⟨true, ⟨10, 1⟩, small⟩ :=
      LoopKind.reenter_fontSize_of_le (by decide) hsize (by norm_num) hleast
    exact (step_rounds_again (congrArg LoopKind.Reentry.again hround) 0 2).trans (by rw [hround])
  have hinner : sequence.Leads
      ⟨[.commands 1 2 0, .rounds (.fontSize 3 20 .reduce) ⟨10, 1⟩ 0 2, .commands 3 3 0], .ok false,
        { small.visit 0 1 with ideal := third }⟩
      ⟨[.commands 0 1 0, .rounds (.bufferSize .label 1 .reduce) ⟨2, 1⟩ 0 1, .commands 2 2 0,
          .rounds (.fontSize 3 20 .reduce) ⟨10, 1⟩ 0 2, .commands 3 3 0], .ok false, inner⟩ :=
    (Leads.of_step rfl).trans (.of_step rfl)
  obtain ⟨steps, hsteps⟩ := hfirst.trans (hnarrow.trans (hsecond.trans (hwide.trans
    (hsmall.trans (hthird.trans hinner)))))
  have hnone : LoopKind.reducedBuffer (2 : ℝ) 1 1 = 0 := by
    have hone : (Scalar.ofNat 1 : ℝ) = 1 := Nat.cast_one
    simp only [LoopKind.reducedBuffer, Scalar.larger_eq_max, Scalar.numeral_eq, hone]
    norm_num
  have hwithin := ((sizes_stay_in_range hconfigured workspace hpositive hlabel hfeature).2 steps).1
  have hreached : sequence.progress start steps = ⟨_, .ok false, inner⟩ := hsteps
  refine ⟨hconfigured, hpositive, hlabel, hfeature, steps, ?_, ?_, hwithin⟩
  · rw [hreached]
    rfl
  · rw [hreached]
    exact congrArg (Buffers.mk · 1) hnone

end Sequence

end LabelPlacement
