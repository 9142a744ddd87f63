import LabelPlacement.Proofs.Exact
import LabelPlacement.Proofs.Moments

/-!
# What a run gives back

Loops reduce sizes and clearances, stack the text, hide elements and relax constraints, and they
nest. `Run.Recovered` says how much of that may be left once all loops of a run have ended: each
size is the earlier one or the declared one, no element is hidden that was not, and the same
constraints are relaxed. Every command keeps to it (`Sequence.recovered_executeAt`); the invariant
of a loop is that it would also be kept if the loop ended now.

For a request that has just been reset, the earlier sizes are the declared ones and nothing is
hidden, so a run leaves nothing behind but the state and the placement.
-/

namespace LabelPlacement

variable {α : Type}

theorem Buffers.ext_get {left right : Buffers α} (hget : ∀ kind, left.get kind = right.get kind) :
    left = right := by
  cases left
  cases right
  simpa [get] using And.intro (hget .label) (hget .feature)

namespace Request

/-! ### Requests in their declared style -/

/-- The request is in its declared style, and nothing of it is hidden. -/
structure IsReset (request : Request α) : Prop where
  working : request.working = .ofStyle request.style
  visible : request.hiddenElements = []

theorem IsReset.declared_eq {request : Request α} (hreset : request.IsReset) :
    request.declared = request := by
  rw [declared, shown_of_hiddenElements_eq_nil hreset.visible, ← hreset.working]

theorem isReset_reset (request : Request α) : request.reset.IsReset := by
  refine ⟨by rw [reset_eq]; rfl, ?_⟩
  calc request.reset.hiddenElements = request.resetWorking.restoreAll.hiddenElements := rfl
    _ = [] := hiddenElements_restoreAll _

theorem mem_hiddenElements_withStackLines {request : Request α} {lines : Nat} {element : Element} :
    element ∈ (request.withStackLines lines).hiddenElements ↔
      element ∈ request.content.hiddenElements := by
  simp [mem_hiddenElements, withStackLines]

/-! ### What may be left of a change -/

/-- How a request may differ from an earlier one after all loops have ended. -/
structure Recovered (before after : Request α) : Prop where
  reset : after.reset = before.reset
  fontSize : after.working.fontSize = before.working.fontSize ∨
    after.working.fontSize = before.style.fontSize
  buffer : ∀ kind, after.buffer kind = before.buffer kind ∨
    after.buffer kind = before.style.buffers.get kind
  stackLines : after.working.stackLines = before.working.stackLines ∨
    after.working.stackLines = 1
  hidden : ∀ element ∈ after.hiddenElements, element ∈ before.hiddenElements

namespace Recovered

theorem refl (request : Request α) : request.Recovered request where
  reset := rfl
  fontSize := Or.inl rfl
  buffer _ := Or.inl rfl
  stackLines := Or.inl rfl
  hidden _ hmem := hmem

theorem style_eq {before after : Request α} (hrecovered : before.Recovered after) :
    after.style = before.style := by
  have hstyle := congrArg Request.style hrecovered.reset
  rwa [reset_eq, reset_eq] at hstyle

theorem trans {first second third : Request α} (hleft : first.Recovered second)
    (hright : second.Recovered third) : first.Recovered third where
  reset := hright.reset.trans hleft.reset
  fontSize := by
    rcases hright.fontSize with hsame | hdeclared
    · rw [hsame]
      exact hleft.fontSize
    · exact Or.inr (hdeclared.trans (by rw [hleft.style_eq]))
  buffer kind := by
    rcases hright.buffer kind with hsame | hdeclared
    · rw [hsame]
      exact hleft.buffer kind
    · exact Or.inr (hdeclared.trans (by rw [hleft.style_eq]))
  stackLines := by
    rcases hright.stackLines with hsame | hone
    · rw [hsame]
      exact hleft.stackLines
    · exact Or.inr hone
  hidden element hmem := hleft.hidden element (hright.hidden element hmem)

/-- A request in its declared style stays as it is, but for its state and placement. -/
theorem isReset {before after : Request α} (hrecovered : before.Recovered after)
    (hreset : before.IsReset) : after.IsReset := by
  have hvisible : after.hiddenElements = [] := by
    refine List.eq_nil_iff_forall_not_mem.mpr fun element hmem => ?_
    simpa [hreset.visible] using hrecovered.hidden element hmem
  have hfontSize : after.working.fontSize = after.style.fontSize := by
    rw [hrecovered.style_eq]
    rcases hrecovered.fontSize with hsame | hdeclared
    · rw [hsame, hreset.working, Working.ofStyle]
    · exact hdeclared
  have hbuffer : ∀ kind, after.buffer kind = after.style.buffers.get kind := by
    intro kind
    rw [hrecovered.style_eq]
    rcases hrecovered.buffer kind with hsame | hdeclared
    · rw [hsame, Request.buffer, hreset.working, Working.ofStyle]
    · exact hdeclared
  have hbuffers : after.working.buffers = after.style.buffers :=
    Buffers.ext_get hbuffer
  have hstackLines : after.working.stackLines = 1 := by
    rcases hrecovered.stackLines with hsame | hone
    · rw [hsame, hreset.working, Working.ofStyle]
    · exact hone
  have hlevels : after.working.hiddenLevels = [] :=
    List.map_eq_nil_iff.mp (List.append_eq_nil_iff.mp hvisible).2
  refine ⟨?_, hvisible⟩
  rw [Working.ofStyle, ← hfontSize, ← hbuffers, ← hstackLines, ← hlevels]

theorem eq_of_isReset {before after : Request α} (hrecovered : before.Recovered after)
    (hreset : before.IsReset) :
    after = { before with status := after.status, placement := after.placement } := by
  have hkept := hrecovered.reset
  rw [reset_eq, reset_eq, hreset.declared_eq, (hrecovered.isReset hreset).declared_eq] at hkept
  cases after
  cases before
  simp_all

/-! What a loop does when it ends keeps two requests as close as they are. -/

theorem setBuffer {before after : Request α} (hrecovered : before.Recovered after)
    (kind : BufferKind) (value : α) :
    (before.setBuffer kind value).Recovered (after.setBuffer kind value) where
  reset := hrecovered.reset
  fontSize := hrecovered.fontSize
  buffer other := by
    have hother := hrecovered.buffer other
    cases kind <;> cases other <;> first | exact Or.inl rfl | exact hother
  stackLines := hrecovered.stackLines
  hidden := hrecovered.hidden

theorem setFontSize {before after : Request α} (hrecovered : before.Recovered after)
    (fontSize : α) :
    (before.setFontSize fontSize).Recovered (after.setFontSize fontSize) where
  reset := hrecovered.reset
  fontSize := Or.inl rfl
  buffer := hrecovered.buffer
  stackLines := hrecovered.stackLines
  hidden := hrecovered.hidden

/-- Only what is hidden tells apart requests that show the same. -/
theorem congr_shown {before after shownBefore shownAfter : Request α}
    (hrecovered : before.Recovered after) (hbefore : shownBefore.shown = before.shown)
    (hafter : shownAfter.shown = after.shown)
    (hhidden : ∀ element ∈ shownAfter.hiddenElements, element ∈ shownBefore.hiddenElements) :
    shownBefore.Recovered shownAfter := by
  have hstyle : shownBefore.style = before.style := (congrArg Request.style hbefore :)
  have hworking : ∀ {left right : Request α}, left.shown = right.shown →
      left.working.fontSize = right.working.fontSize ∧
        left.working.buffers = right.working.buffers ∧
        left.working.stackLines = right.working.stackLines := by
    intro left right hshown
    have hsame := congrArg Request.working hshown
    simp only [shown, Working.mk.injEq, and_true] at hsame
    exact hsame
  obtain ⟨hfontBefore, hbuffersBefore, hlinesBefore⟩ := hworking hbefore
  obtain ⟨hfontAfter, hbuffersAfter, hlinesAfter⟩ := hworking hafter
  refine ⟨?_, ?_, fun kind => ?_, ?_, hhidden⟩
  · rw [reset_of_declared_eq (declared_eq_of_shown_eq hbefore),
      reset_of_declared_eq (declared_eq_of_shown_eq hafter), hrecovered.reset]
  · rw [hfontBefore, hfontAfter, hstyle]
    exact hrecovered.fontSize
  · rw [Request.buffer, Request.buffer, hbuffersBefore, hbuffersAfter, hstyle]
    exact hrecovered.buffer kind
  · rw [hlinesBefore, hlinesAfter]
    exact hrecovered.stackLines

theorem foldl_restore {before after : Request α} (hrecovered : before.Recovered after)
    (elements : List Element) :
    (elements.foldl restore before).Recovered (elements.foldl restore after) := by
  refine hrecovered.congr_shown (shown_foldl_restore _ _) (shown_foldl_restore _ _)
    fun element hmem => ?_
  rw [mem_hiddenElements_foldl_restore] at hmem ⊢
  exact ⟨hrecovered.hidden element hmem.1, hmem.2⟩

theorem withStackLines {start before after : Request α} {lines otherLines : Nat}
    (hstart : start.Recovered (before.withStackLines lines))
    (hrecovered : before.Recovered after)
    (hlines : otherLines = start.working.stackLines ∨ otherLines = 1) :
    start.Recovered (after.withStackLines otherLines) := by
  have hstacked : (before.withStackLines lines).Recovered (after.withStackLines lines) := by
    refine ⟨hrecovered.reset, hrecovered.fontSize, hrecovered.buffer, Or.inl rfl, ?_⟩
    intro element hmem
    rw [mem_hiddenElements_withStackLines] at hmem ⊢
    have hhidden := hrecovered.hidden element (mem_hiddenElements.mpr (Or.inl hmem))
    obtain hcontent | ⟨level, _, rfl⟩ := mem_hiddenElements.mp hhidden
    · exact hcontent
    · exact absurd hmem Content.stackLevel_notMem_hiddenElements
  have hwhole := hstart.trans hstacked
  exact ⟨hwhole.reset, hwhole.fontSize, hwhole.buffer, hlines, hwhole.hidden⟩

end Recovered

theorem recovered_settle (request : Request α) (status : Status)
    (placement : Option (Placement α)) : request.Recovered { request with status, placement } where
  reset := request.reset_settle status placement
  fontSize := Or.inl rfl
  buffer _ := Or.inl rfl
  stackLines := Or.inl rfl
  hidden _ hmem := hmem

end Request

/-- How a run may differ from an earlier one after all its loops have ended. -/
structure Run.Recovered (before after : Run α) : Prop where
  relaxations : after.relaxations = before.relaxations
  request : before.request.Recovered after.request

theorem Run.Recovered.refl (run : Run α) : run.Recovered run := ⟨rfl, .refl _⟩

theorem Run.Recovered.trans {first second third : Run α} (hleft : first.Recovered second)
    (hright : second.Recovered third) : first.Recovered third :=
  ⟨hright.relaxations.trans hleft.relaxations, hleft.request.trans hright.request⟩

theorem Run.Recovered.of_settled [Scalar α] {before after : Run α}
    (hsettled : Settled before after) : before.Recovered after := by
  cases hsettled with
  | placed => exact ⟨rfl, before.request.recovered_settle _ _⟩
  | deferred | suppressed => exact ⟨rfl, before.request.recovered_settle _ _⟩

/-! ### Loops -/

namespace LoopKind

/-- What a loop notes at its beginning of the run it began with, as far as ending it depends on more
than that. -/
def Notes (start : Run α) : (kind : LoopKind α) → kind.State → Prop
  | .stack .., state => state.entry = start.request.working.stackLines
  | .relax _, _ | .bufferSize .., _ | .fontSize .., _ | .hide _, _ => True

/-- A loop that began with a run would give back what it has changed if it ended now. -/
structure WouldRecover (kind : LoopKind α) (start : Run α) (state : kind.State) (run : Run α) :
    Prop where
  notes : kind.Notes start state
  recovered : start.Recovered (kind.finish state run)

/-- At its end a stack loop stacks the text as at its beginning, or unstacks it. -/
theorem exists_finish_stack (lines : Nat) (action : LoopAction) (state : StepState Nat)
    (run : Run α) : ∃ restored, (restored = state.entry ∨ restored = 1) ∧
      finish (.stack lines action) state run =
        run.mapRequest (·.withStackLines restored) := by
  by_cases hentry : state.entry ≤ 1
  · exact ⟨1, Or.inr rfl, by simp only [finish, hentry, if_true]; rfl⟩
  · cases hstacked : run.request.stack? state.entry with
    | none =>
      refine ⟨1, Or.inr rfl, ?_⟩
      simp only [finish, Run.mapRequest, hentry, if_false, hstacked]
      rfl
    | some stacked =>
      refine ⟨state.entry, Or.inl rfl, ?_⟩
      simp only [finish, Run.mapRequest, hentry, if_false, hstacked,
        Request.eq_withStackLines_of_stack? hstacked]
      rfl

theorem wouldRecover_begin (kind : LoopKind α) (run : Run α) :
    kind.WouldRecover run (kind.begin run) run := by
  cases kind with
  | relax | fontSize | hide => exact ⟨trivial, .refl run⟩
  | bufferSize buffer =>
    refine ⟨trivial, ?_⟩
    cases buffer <;> exact .refl run
  | stack lines action =>
    refine ⟨rfl, ?_⟩
    obtain ⟨restored, hrestored, hfinish⟩ := exists_finish_stack lines action
      (begin (.stack lines action) run) run
    rw [hfinish]
    refine ⟨rfl, ⟨rfl, Or.inl rfl, fun _ => Or.inl rfl, hrestored, fun element hmem => ?_⟩⟩
    rw [Run.mapRequest, Request.mem_hiddenElements_withStackLines] at hmem
    exact Request.mem_hiddenElements.mpr (Or.inl hmem)

theorem WouldRecover.trans {kind : LoopKind α} {start mid after : Run α} {state : kind.State}
    (hwould : kind.WouldRecover start state mid) (hrecovered : mid.Recovered after) :
    kind.WouldRecover start state after := by
  refine ⟨hwould.notes, ?_⟩
  match kind, state, hwould with
  | .relax _, state, hwould =>
    exact ⟨hwould.recovered.relaxations, hwould.recovered.request.trans hrecovered.request⟩
  | .bufferSize .., state, hwould =>
    exact hwould.recovered.trans ⟨hrecovered.relaxations, hrecovered.request.setBuffer _ _⟩
  | .fontSize .., state, hwould =>
    exact hwould.recovered.trans ⟨hrecovered.relaxations, hrecovered.request.setFontSize _⟩
  | .hide _, state, hwould =>
    exact hwould.recovered.trans ⟨hrecovered.relaxations, hrecovered.request.foldl_restore _⟩
  | .stack lines action, state, hwould =>
    obtain ⟨before, _, hbefore⟩ := exists_finish_stack lines action state mid
    obtain ⟨restored, hrestored, hfinish⟩ := exists_finish_stack lines action state after
    have hstart := hwould.recovered
    rw [hbefore] at hstart
    rw [hfinish]
    refine ⟨hrecovered.relaxations.trans hstart.relaxations, ?_⟩
    refine hstart.request.withStackLines hrecovered.request ?_
    rwa [← show state.entry = start.request.working.stackLines from hwould.notes]

theorem WouldRecover.reenter [Scalar α] {kind : LoopKind α} {start run : Run α}
    {state : kind.State} (hwould : kind.WouldRecover start state run) :
    kind.WouldRecover start (kind.reenter state run).state (kind.reenter state run).run := by
  match kind, state, hwould with
  | .relax _, state, hwould =>
    rw [LoopKind.reenter]
    split
    · exact hwould
    · exact ⟨trivial, hwould.recovered⟩
  | .bufferSize buffer _ _, state, hwould =>
    simp only [LoopKind.reenter]
    split
    · split <;> exact ⟨trivial, hwould.recovered⟩
    · split
      · exact hwould
      · cases buffer <;> exact ⟨trivial, hwould.recovered⟩
  | .fontSize .., state, hwould =>
    simp only [LoopKind.reenter]
    split <;> split <;> exact ⟨trivial, hwould.recovered⟩
  | .stack .., state, hwould =>
    rw [LoopKind.reenter]
    split
    · split <;> exact ⟨hwould.notes, hwould.recovered⟩
    · split
      · exact hwould
      · split
        · exact hwould
        · rename_i stacked hstacked
          rw [Request.eq_withStackLines_of_stack? hstacked]
          exact ⟨hwould.notes, hwould.recovered⟩
  | .hide _, state, hwould =>
    refine ⟨trivial, hwould.recovered.trans ⟨rfl, ?_⟩⟩
    refine (Request.Recovered.refl _).congr_shown rfl ?_ fun element hmem => ?_
    · rw [finish, LoopKind.reenter, Run.mapRequest, Request.shown_foldl_restore,
        HideAttempt.shown_firstUsable]
      rfl
    · obtain ⟨hhidden, hkept⟩ := Request.mem_hiddenElements_foldl_restore.mp hmem
      obtain hbefore | hnoted := HideAttempt.mem_hiddenElements_firstUsable hhidden
      · exact hbefore
      · exact absurd hnoted hkept

end LoopKind

/-! ### Sequences -/

theorem Run.recovered_restoreDeclared (kind : LoopKind α) (run : Run α) :
    run.Recovered (kind.restoreDeclared run) := by
  refine ⟨by cases kind <;> rfl, ?_⟩
  cases kind with
  | relax | hide => exact .refl _
  | bufferSize buffer =>
    refine ⟨rfl, Or.inl rfl, fun other => ?_, Or.inl rfl, fun element hmem => hmem⟩
    cases buffer <;> cases other <;> first | exact Or.inl rfl | exact Or.inr rfl
  | fontSize =>
    exact ⟨rfl, Or.inr rfl, fun _ => Or.inl rfl, Or.inl rfl, fun element hmem => hmem⟩
  | stack =>
    refine ⟨rfl, Or.inl rfl, fun _ => Or.inl rfl, Or.inr rfl, fun element hmem => ?_⟩
    exact Request.mem_hiddenElements.mpr
      (Or.inl (Request.mem_hiddenElements_withStackLines.mp hmem))

namespace Sequence

variable [Trigonometric α]

theorem respects_recovered (sequence : Sequence α) :
    sequence.Respects fun run outcome => run.Recovered outcome.2 where
  skip run := .refl run
  seq hfirst hsecond := hfirst.trans hsecond
  single := by
    intro position entry hentry hsingle run
    have hattempted := attempted_performSingle hsingle (run.visit position entry.id)
    generalize performSingle entry.command (run.visit position entry.id) = outcome at hattempted
    cases hattempted with
    | settled hsettled =>
      have hrecovered := Run.Recovered.of_settled hsettled
      exact ⟨hrecovered.relaxations, hrecovered.request⟩
    | unsettled => exact ⟨rfl, .refl _⟩
  unresolved _ _ _ _ run := ⟨rfl, .refl _⟩
  reset := by
    intro position entry loop _ _ run
    have hrecovered := (run.visit position entry.id).recovered_restoreDeclared loop.kind
    exact ⟨hrecovered.relaxations, hrecovered.request⟩
  rounds := by
    intro position entry loop _ _ body hbody run
    refine LoopKind.rounds_rule
      (loop.kind.WouldRecover (run.visit position entry.id))
      (fun outcome => run.Recovered outcome.2) ?_ ?_ ?_ _ _ ?_
    · intro state mid hwould _ after hafter
      have hround := hbody (loop.kind.reenter state mid).run
      rw [hafter] at hround
      exact hwould.reenter.trans hround
    · intro state mid hwould _ outcome after hafter _
      have hround := hbody (loop.kind.reenter state mid).run
      rw [hafter] at hround
      have hended := (hwould.reenter.trans hround).recovered
      exact ⟨hended.relaxations, hended.request⟩
    · intro state mid hwould _
      have hended := hwould.reenter.recovered
      exact ⟨hended.relaxations, hended.request⟩
    · exact loop.kind.wouldRecover_begin _

/-- **One command.** However it ends, a command leaves the run recovered. -/
theorem recovered_executeAt (sequence : Sequence α) (position returnLimit : Nat) (run : Run α) :
    run.Recovered (sequence.executeAt position returnLimit run).2 :=
  sequence.respects_recovered.executeAt position returnLimit run

theorem recovered_execute (sequence : Sequence α) (run : Run α) :
    run.Recovered (sequence.execute run).2 :=
  sequence.respects_recovered.execute run

end Sequence

/-! ### Maps -/

namespace LabelMap

variable [Trigonometric α]

theorem isReset_placeRequest (map : LabelMap α) {request : Request α} (hreset : request.IsReset) :
    (map.placeRequest request).2.1.IsReset := by
  rw [placeRequest]
  split
  · exact ⟨hreset.working, hreset.visible⟩
  · rename_i sequence _
    have hrecovered := sequence.recovered_execute (.start map.workspace request)
    split <;> rename_i hoccurs <;> rw [hoccurs] at hrecovered <;>
      exact hrecovered.request.isReset hreset

theorem isReset_placeAt {map : LabelMap α} (hreset : ∀ request ∈ map.requests, request.IsReset)
    (position : Nat) : ∀ request ∈ (map.placeAt position).2.requests, request.IsReset := by
  intro request hmem
  cases hfound : map.requests[position]? with
  | none =>
    rw [placeAt_of_none hfound] at hmem
    exact hreset request hmem
  | some original =>
    rw [placeAt_eq hfound] at hmem
    rcases List.mem_or_eq_of_mem_set hmem with hold | rfl
    · exact hreset request hold
    · exact map.isReset_placeRequest (hreset original (List.mem_of_getElem? hfound))

theorem isReset_placeAll {map : LabelMap α} (hreset : ∀ request ∈ map.requests, request.IsReset)
    (conditions : Conditions) (turn : Nat) (positions : List Nat) :
    ∀ request ∈ (placeAll conditions map turn positions).1.requests, request.IsReset := by
  induction positions generalizing map turn with
  | nil => exact hreset
  | cons position rest ih =>
    rw [placeAll]
    split
    · exact hreset
    · exact ih (isReset_placeAt hreset position) (turn + 1)

theorem isReset_placeDeferred {map : LabelMap α}
    (hreset : ∀ request ∈ map.requests, request.IsReset) (leader : DeferredLeader α) :
    ∀ request ∈ (map.placeDeferred leader).requests, request.IsReset := by
  intro request hmem
  cases hrequest : map.request? leader.request with
  | none =>
    rw [placeDeferred, hrequest] at hmem
    exact hreset request hmem
  | some original =>
    obtain ⟨position, run, hfound, _, hsettled, _, hmap⟩ := exists_settled_placeDeferred hrequest
    rw [hmap] at hmem
    rcases List.mem_or_eq_of_mem_set hmem with hold | rfl
    · exact hreset request hold
    · exact (Run.Recovered.of_settled hsettled).request.isReset
        (hreset original (List.mem_of_getElem? hfound))

theorem isReset_foldl_placeDeferred {map : LabelMap α}
    (hreset : ∀ request ∈ map.requests, request.IsReset) (leaders : List (DeferredLeader α)) :
    ∀ request ∈ (leaders.foldl placeDeferred map).requests, request.IsReset := by
  induction leaders generalizing map with
  | nil => exact hreset
  | cons leader rest ih => exact ih (isReset_placeDeferred hreset leader)

/-- **After labelling.** All requests are in their declared style with nothing hidden. -/
theorem isReset_labelUnder (map : LabelMap α) (conditions : Conditions) :
    ∀ request ∈ (map.labelUnder conditions).2.requests, request.IsReset := by
  have hcleared : ∀ request ∈ map.cleared.requests, request.IsReset := by
    intro request hmem
    obtain ⟨original, _, rfl⟩ := exists_of_mem_cleared hmem
    exact original.isReset_reset
  have hplaced := isReset_placeAll hcleared conditions 0 (order map.cleared.requests)
  simp only [labelUnder]
  split
  · rw [placeDeferredLeaders]
    refine isReset_foldl_placeDeferred ?_ _
    exact hplaced
  · exact hplaced

end LabelMap

/-- **What labelling gives back.** For a request in its declared style, a run leaves everything as
it was but the state and the placement, and no constraint is relaxed, whether the label is settled
or not and whether the run fails or not. Every single command ends with the constraints relaxed that
were relaxed when it began. After labelling, all requests of a map are in their declared style with
nothing hidden. -/
theorem labelling_gives_back [Trigonometric α] :
    (∀ (sequence : Sequence α) (workspace : Workspace α) (request : Request α),
      request.IsReset →
      let final := (sequence.execute (.start workspace request)).2
      final.request =
          { request with
              status := final.request.status, placement := final.request.placement } ∧
        final.relaxations = .none) ∧
    (∀ (sequence : Sequence α) (position returnLimit : Nat) (run : Run α),
      (sequence.executeAt position returnLimit run).2.relaxations = run.relaxations) ∧
    ∀ (map : LabelMap α) (conditions : Conditions),
      ∀ request ∈ (map.labelUnder conditions).2.requests,
        request.working = .ofStyle request.style ∧ request.hiddenElements = [] := by
  refine ⟨fun sequence workspace request hreset => ?_, ?_, fun map conditions request hmem => ?_⟩
  · have hrecovered := sequence.recovered_execute (.start workspace request)
    exact ⟨hrecovered.request.eq_of_isReset hreset, hrecovered.relaxations⟩
  · intro sequence position returnLimit run
    exact (sequence.recovered_executeAt position returnLimit run).relaxations
  · obtain ⟨hworking, hvisible⟩ := map.isReset_labelUnder conditions request hmem
    exact ⟨hworking, hvisible⟩

/-- There is no room for the label of a town, which is made smaller twice and then suppressed. -/
theorem shrinking_town_gives_back :
    let sequence : Sequence Rat :=
      ⟨[⟨1, .point ⟨[.north, .east], 0⟩⟩, ⟨2, .loop ⟨.fontSize 2 10 .reduce, some 1⟩⟩,
        ⟨3, .failure .suppress⟩], 4⟩
    let crowded : Workspace Rat :=
      { Workspace.empty .standard with index := ⟨[⟨.label 2, ⟨⟨-50, -50⟩, ⟨50, 50⟩⟩⟩]⟩ }
    let request : Request Rat :=
      .create 1 1 "town" (.point ⟨0, 0⟩) (.single "Bern") ⟨10, ⟨1, 1⟩⟩
    let final := (sequence.execute (.start crowded request)).2
    request.IsReset ∧
      final.visits.map (fun visit => (visit.command, visit.request.working.fontSize)) =
        [(3, 10), (1, 8), (1, 9), (2, 10), (1, 10)] ∧
      final.request =
          { request with
              status := final.request.status, placement := final.request.placement } ∧
        final.relaxations = .none := by
  intro sequence crowded request final
  have hreset : request.IsReset := ⟨rfl, rfl⟩
  have hvisits : final.visits.map (fun visit => (visit.command, visit.request.working.fontSize)) =
      [(3, 10), (1, 8), (1, 9), (2, 10), (1, 10)] := by
    decide +kernel
  exact ⟨hreset, hvisits, labelling_gives_back.1 sequence crowded request hreset⟩

end LabelPlacement
