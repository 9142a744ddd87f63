import LabelPlacement.Proofs.HideRounds
import LabelPlacement.Proofs.Points
import LabelPlacement.Proofs.Recovery

/-!
# Hiding is undone

Hiding takes the first element of a name and showing takes all of them, so showing what was hidden
gives back a content only where a name that hides something hides its first element
(`Content.HidesFirst`). Hiding and showing keep to such contents, and a request that has just been
reset has one; so every point of its run has one (`Sequence.hidesFirst_progress`). From there on,
whatever is carried out leaves the content as it was, hide loops at any depth included
(`Sequence.keepsContent_executeAt`).
-/

namespace LabelPlacement

variable {α : Type}

/-! ### Names that hide their first element -/

namespace Content

/-- Each name under which something is hidden hides its first element. -/
def HidesFirst (content : Content α) : Prop :=
  ∀ element ∈ content.hiddenElements, content.IsHidden element

theorem HidesFirst.hide {content : Content α} (hfirst : content.HidesFirst) (target : Element) :
    (content.hide target).2.HidesFirst := by
  intro element hmem
  obtain hkept | ⟨houtcome, rfl⟩ := mem_hiddenElements_hide hmem
  · exact (hfirst element hkept).hide target
  · exact isHidden_hide (by rw [houtcome]; exact HideOutcome.noConfusion)

theorem HidesFirst.restore {content : Content α} (hfirst : content.HidesFirst)
    (target : Element) : (content.restore target).HidesFirst := by
  intro element hmem
  obtain ⟨hkept, hother⟩ := mem_hiddenElements_restore.mp hmem
  exact (hfirst element hkept).restore hother

end Content

namespace Request

theorem content_hide (request : Request α) (element : Element) :
    (request.hide element).2.content = (request.content.hide element).2 := by
  obtain ⟨level, rfl⟩ | hkind := element.level_or_content
  · rw [hide]
    split_ifs <;> rfl
  · rw [hide_content request hkind]

theorem content_restore (request : Request α) (element : Element) :
    (request.restore element).content = request.content.restore element := by
  cases element <;> rfl

/-- What is shown of the content does not depend on the rest of the request. -/
theorem content_foldl_restore (elements : List Element) (request : Request α) :
    (elements.foldl restore request).content =
      elements.foldl Content.restore request.content := by
  induction elements generalizing request with
  | nil => rfl
  | cons first rest ih => rw [List.foldl_cons, List.foldl_cons, ih, content_restore]

theorem hidesFirst_foldl_restore {request : Request α} (hfirst : request.content.HidesFirst)
    (elements : List Element) : (elements.foldl restore request).content.HidesFirst := by
  rw [content_foldl_restore]
  exact List.foldlRecOn elements _ hfirst fun _ hcontent element _ => hcontent.restore element

theorem isHidden_of_hidesFirst {request : Request α} (hfirst : request.content.HidesFirst)
    {element : Element} (hmem : element ∈ request.hiddenElements) : request.IsHidden element :=
  (mem_hiddenElements.mp hmem).imp_left (hfirst element)

theorem IsReset.hidesFirst {request : Request α} (hreset : request.IsReset) :
    request.content.HidesFirst := by
  intro element hmem
  have hhidden : element ∈ request.hiddenElements := mem_hiddenElements.mpr (Or.inl hmem)
  rw [hreset.visible] at hhidden
  cases hhidden

end Request

namespace HideAttempt

theorem hidesFirst_hideAll {request : Request α} (hfirst : request.content.HidesFirst)
    (targets : List Element) : (hideAll request targets).2.2.content.HidesFirst := by
  induction targets generalizing request with
  | nil => exact hfirst
  | cons target rest ih =>
    rw [hideAll]
    split
    · exact hfirst
    · rename_i outcome changed _ hhide
      have hchanged : (request.hide target).2.content.HidesFirst := by
        rw [Request.content_hide]
        exact hfirst.hide target
      rw [hhide] at hchanged
      exact ih hchanged

theorem hidesFirst_firstUsable {request : Request α} (hfirst : request.content.HidesFirst)
    (attempts : List HideAttempt) : (firstUsable request attempts).2.2.content.HidesFirst := by
  induction attempts generalizing request with
  | nil => exact hfirst
  | cons attempt rest ih =>
    simp only [firstUsable]
    split
    · exact hidesFirst_hideAll hfirst attempt.targets
    · exact ih (Request.hidesFirst_foldl_restore (hidesFirst_hideAll hfirst attempt.targets) _)

/-- Showing what the attempt taken has hidden gives back the request, whatever its names are. -/
theorem undone_firstUsable {request : Request α} (hfirst : request.content.HidesFirst)
    (attempts : List HideAttempt) :
    (firstUsable request attempts).2.1.hidden.foldl Request.restore
      (firstUsable request attempts).2.2 = request :=
  (restoredBy_firstUsable attempts request).eq_of_isHidden
    fun _ _ _ _ hmem => Request.isHidden_of_hidesFirst hfirst hmem

end HideAttempt

/-! ### Loops -/

namespace LoopKind

/-- Only hide loops touch the content. -/
theorem content_finish {kind : LoopKind α} (hkind : ∀ attempts, kind ≠ .hide attempts)
    (state : kind.State) (run : Run α) :
    (kind.finish state run).request.content = run.request.content := by
  match kind, state with
  | .relax _, _ | .bufferSize .., _ | .fontSize .., _ => rfl
  | .stack lines action, state =>
    obtain ⟨restored, -, hfinish⟩ := exists_finish_stack lines action state run
    rw [hfinish]
    rfl
  | .hide attempts, _ => exact absurd rfl (hkind attempts)

theorem hidesFirst_finish (kind : LoopKind α) (state : kind.State) {run : Run α}
    (hfirst : run.request.content.HidesFirst) :
    (kind.finish state run).request.content.HidesFirst := by
  match kind, state with
  | .hide _, state => exact Request.hidesFirst_foldl_restore hfirst state.hidden
  | .relax _, state | .bufferSize .., state | .fontSize .., state | .stack .., state =>
    rwa [content_finish (by simp)]

theorem content_restoreDeclared (kind : LoopKind α) (run : Run α) :
    (kind.restoreDeclared run).request.content = run.request.content := by
  cases kind <;> rfl

variable [Scalar α]

theorem content_reenter {kind : LoopKind α} (hkind : ∀ attempts, kind ≠ .hide attempts)
    (state : kind.State) (run : Run α) :
    (kind.reenter state run).run.request.content = run.request.content := by
  match kind, state with
  | .relax _, state =>
    rw [reenter]
    split <;> rfl
  | .bufferSize .., state | .fontSize .., state =>
    simp only [reenter]
    split_ifs <;> rfl
  | .stack .., state =>
    rw [reenter]
    split_ifs
    · rfl
    · rfl
    · rfl
    · split
      · rfl
      · rename_i stacked hstacked
        rw [Request.eq_withStackLines_of_stack? hstacked]
        rfl
  | .hide attempts, _ => exact absurd rfl (hkind attempts)

theorem hidesFirst_reenter (kind : LoopKind α) (state : kind.State) {run : Run α}
    (hfirst : run.request.content.HidesFirst) :
    (kind.reenter state run).run.request.content.HidesFirst := by
  match kind, state with
  | .hide _, state =>
    exact HideAttempt.hidesFirst_firstUsable (Request.hidesFirst_foldl_restore hfirst state.hidden)
      state.pending
  | .relax _, state | .bufferSize .., state | .fontSize .., state | .stack .., state =>
    rwa [content_reenter (by simp)]

end LoopKind

/-! ### Runs -/

/-- Where names hide their first elements, the outcome has the content that the run began with. -/
def Run.KeepsContent (run : Run α) (outcome : Outcome α) : Prop :=
  run.request.content.HidesFirst → outcome.2.request.content = run.request.content

namespace LoopKind

variable [Scalar α] {body : Run α → Outcome α}

theorem keepsContent_rounds_of_ne_hide {kind : LoopKind α}
    (hkind : ∀ attempts, kind ≠ .hide attempts) (hbody : ∀ run, Run.KeepsContent run (body run))
    (run : Run α) : Run.KeepsContent run (kind.rounds body (kind.begin run) run) := by
  intro hfirst
  have hround : ∀ {state : kind.State} {mid after : Run α} {result},
      mid.request.content = run.request.content →
      body (kind.reenter state mid).run = (result, after) →
      after.request.content = run.request.content := by
    intro state mid after result hmid hafter
    have hentered := (content_reenter hkind state mid).trans hmid
    have hkept := hbody (kind.reenter state mid).run (by rw [hentered]; exact hfirst)
    rw [hafter] at hkept
    exact hkept.trans hentered
  refine rounds_rule (fun _ mid => mid.request.content = run.request.content)
    (fun outcome => outcome.2.request.content = run.request.content) ?_ ?_ ?_ _ _ rfl
  · intro state mid hmid _ after hafter
    exact hround hmid hafter
  · intro state mid hmid _ result after hafter _
    rw [content_finish hkind]
    exact hround hmid hafter
  · intro state mid hmid _
    rw [content_finish hkind, content_reenter hkind]
    exact hmid

/-- The rounds of a hide loop. Undoing the present attempt gives back the content of the beginning:
the body leaves the content of the attempt as it is, so it is undone as if nothing had come in
between. -/
theorem keepsContent_rounds_hide (attempts : List HideAttempt)
    (hbody : ∀ run, Run.KeepsContent run (body run)) (run : Run α) :
    Run.KeepsContent run
      ((LoopKind.hide attempts).rounds body ((LoopKind.hide attempts).begin run) run) := by
  intro hfirst
  have hundone : ∀ {state : HideState} {mid : Run α},
      (state.hidden.foldl Request.restore mid.request).content = run.request.content →
      let next := (LoopKind.hide attempts).reenter state mid
      next.run.request.content.HidesFirst ∧
        (next.state.hidden.foldl Request.restore next.run.request).content =
          run.request.content := by
    intro state mid hmid next
    have hrestored : (state.hidden.foldl Request.restore mid.request).content.HidesFirst := by
      rw [hmid]
      exact hfirst
    refine ⟨HideAttempt.hidesFirst_firstUsable hrestored state.pending, ?_⟩
    rw [← hmid]
    exact congrArg Request.content (HideAttempt.undone_firstUsable hrestored state.pending)
  have hround : ∀ {state : HideState} {mid after : Run α} {result},
      (state.hidden.foldl Request.restore mid.request).content = run.request.content →
      body ((LoopKind.hide attempts).reenter state mid).run = (result, after) →
      (((LoopKind.hide attempts).reenter state mid).state.hidden.foldl Request.restore
        after.request).content = run.request.content := by
    intro state mid after result hmid hafter
    obtain ⟨hentered, hback⟩ := hundone hmid
    have hkept := hbody _ hentered
    rw [hafter] at hkept
    rw [Request.content_foldl_restore, hkept, ← Request.content_foldl_restore]
    exact hback
  refine rounds_rule
    (fun (state : HideState) mid => (state.hidden.foldl Request.restore mid.request).content =
      run.request.content)
    (fun outcome => outcome.2.request.content = run.request.content) ?_ ?_ ?_ _ _ rfl
  · intro state mid hmid _ after hafter
    exact hround hmid hafter
  · intro state mid hmid _ result after hafter _
    exact hround hmid hafter
  · intro state mid hmid _
    exact (hundone hmid).2

theorem keepsContent_rounds (kind : LoopKind α) (hbody : ∀ run, Run.KeepsContent run (body run))
    (run : Run α) : Run.KeepsContent run (kind.rounds body (kind.begin run) run) := by
  cases kind with
  | hide attempts => exact keepsContent_rounds_hide attempts hbody run
  | relax | bufferSize | fontSize | stack =>
    exact keepsContent_rounds_of_ne_hide (by simp) hbody run

end LoopKind

namespace Sequence

variable [Trigonometric α]

theorem maintains_hidesFirst (sequence : Sequence α) :
    sequence.Maintains (fun run => run.request.content.HidesFirst) fun _ _ => True where
  visit _ _ hfirst := hfirst
  note _ hfirst := hfirst
  begins _ _ _ := trivial
  reenter _ _ state _ _ hfirst := ⟨trivial, LoopKind.hidesFirst_reenter _ state hfirst⟩
  finish kind state _ _ hfirst := kind.hidesFirst_finish state hfirst
  restore kind run hfirst := by rwa [LoopKind.content_restoreDeclared]

/-- **At every point.** The names of a request that was reset before its run hide their first
elements. -/
theorem hidesFirst_progress (sequence : Sequence α) (workspace : Workspace α)
    {request : Request α} (hreset : request.IsReset) (steps : Nat) :
    (sequence.progress (.start workspace request) steps).outcome.2.request.content.HidesFirst := by
  refine sequence.maintains_hidesFirst.at_every_point ?_ hreset.hidesFirst steps
  intro run after position command hfirst hsettled
  cases hsettled <;> exact hfirst

theorem respects_keepsContent (sequence : Sequence α) :
    sequence.Respects Run.KeepsContent where
  skip run _ := rfl
  seq := by
    intro run mid outcome hleft hright hfirst
    have hmid : mid.request.content = run.request.content := hleft hfirst
    exact (hright (by rw [hmid]; exact hfirst)).trans hmid
  single := by
    intro position entry hentry hsingle run hfirst
    obtain ⟨status, placement, hrequest⟩ :=
      request_performSingle hsingle (run.visit position entry.id)
    rw [hrequest]
    rfl
  unresolved _ _ _ _ run _ := rfl
  reset _ _ run _ := LoopKind.content_restoreDeclared _ _
  rounds := by
    intro position entry loop _ _ body hbody run
    exact loop.kind.keepsContent_rounds hbody (run.visit position entry.id)

/-- **One command.** Where names hide their first elements, a command gives back the content. -/
theorem keepsContent_executeAt (sequence : Sequence α) (position returnLimit : Nat)
    (run : Run α) : run.KeepsContent (sequence.executeAt position returnLimit run) :=
  sequence.respects_keepsContent.executeAt position returnLimit run

end Sequence

end LabelPlacement
