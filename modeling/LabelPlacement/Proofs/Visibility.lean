import LabelPlacement.Proofs.Exact
import LabelPlacement.Proofs.Lines
import LabelPlacement.Proofs.Points
import LabelPlacement.Proofs.Revealing

/-!
# Something to be seen

A hide loop looks once whether an attempt leaves something to be seen; the loops inside it then
break the text anew, and every loop gives back what it had changed. Still no run goes on with an
empty label. Where more is revealed the label has no fewer words, so it has no fewer lines on as
many as were asked for (`Request.RevealsBut.hasVisibleContent`), and breaking the text anew shows
all of it. So a label that has something to be seen when a run starts has it at every point of the
run, and every placement recorded shows it.
-/

namespace LabelPlacement

variable {α : Type}

/-! ### Where more is revealed -/

section Lists

variable {ι κ : Type} {related : ι → ι → Prop} {before after : List ι}

theorem exists_of_mem_of_forall₂ (hrelated : List.Forall₂ related before after) {element : ι}
    (hmem : element ∈ before) : ∃ other ∈ after, related element other := by
  induction hrelated with
  | nil => cases hmem
  | @cons _ changed _ _ hhead _ ih =>
    obtain rfl | hrest := List.mem_cons.mp hmem
    · exact ⟨changed, List.mem_cons_self, hhead⟩
    · obtain ⟨other, hother, hresult⟩ := ih hrest
      exact ⟨other, List.mem_cons_of_mem _ hother, hresult⟩

theorem sublist_filterMap_of_forall₂ {view : ι → Option κ}
    (hrelated : List.Forall₂ related before after)
    (hview : ∀ {element other value}, related element other → view element = some value →
      view other = some value) :
    (before.filterMap view).Sublist (after.filterMap view) := by
  induction hrelated with
  | nil => exact .refl _
  | @cons element other _ _ hhead _ ih =>
    cases hvalue : view element with
    | none =>
      rw [List.filterMap_cons_none hvalue]
      exact ih.trans ((List.sublist_cons_self _ _).filterMap view)
    | some value =>
      rw [List.filterMap_cons_some hvalue, List.filterMap_cons_some (hview hhead hvalue)]
      exact ih.cons_cons value

end Lists

/-- The text of a component, unless nothing of it can be seen. -/
def TextComponent.shownText? (component : TextComponent) : Option String :=
  let text := trimmed component.text
  if component.hidden || text.isEmpty then none else some text

theorem TextObject.visibleText?_eq_some_iff {object : TextObject} {text : String} :
    object.visibleText? = some text ↔ object.hidden = false ∧
      object.components.filterMap TextComponent.shownText? ≠ [] ∧
      " ".intercalate (object.components.filterMap TextComponent.shownText?) = text := by
  change (if object.hidden = true then none
    else if (object.components.filterMap TextComponent.shownText?).isEmpty = true then none
      else some (" ".intercalate (object.components.filterMap TextComponent.shownText?))) =
    some text ↔ _
  simp

namespace TextComponent.RevealsBut

theorem hidden_eq_false {before after : TextComponent} (hreveals : before.RevealsBut [] after)
    (hshown : before.hidden = false) : after.hidden = false := by
  have := hreveals.hidden
  simp_all [FlagBut]

theorem shownText? {before after : TextComponent} (hreveals : before.RevealsBut [] after)
    {text : String} (htext : before.shownText? = some text) : after.shownText? = some text := by
  simp only [TextComponent.shownText?, Option.ite_none_left_eq_some, Bool.or_eq_true, not_or,
    Bool.not_eq_true] at htext ⊢
  rw [hreveals.text]
  exact ⟨⟨hreveals.hidden_eq_false htext.1.1, htext.1.2⟩, htext.2⟩

end TextComponent.RevealsBut

/-- An object that is revealed still has a text, with no fewer words. -/
theorem TextObject.RevealsBut.exists_visibleText? {before after : TextObject}
    (hreveals : before.RevealsBut [] after) {text : String}
    (htext : before.visibleText? = some text) :
    ∃ more, after.visibleText? = some more ∧ (wordsOf text).Sublist (wordsOf more) := by
  obtain ⟨hvisible, htexts, rfl⟩ := visibleText?_eq_some_iff.mp htext
  have hsublist : (before.components.filterMap TextComponent.shownText?).Sublist
      (after.components.filterMap TextComponent.shownText?) :=
    sublist_filterMap_of_forall₂ hreveals.components fun hrelated => hrelated.shownText?
  refine ⟨_, visibleText?_eq_some_iff.mpr ⟨?_, fun hnone => htexts ?_, rfl⟩, ?_⟩
  · have := hreveals.hidden
    simp_all [FlagBut]
  · rw [hnone] at hsublist
    exact List.sublist_nil.mp hsublist
  · rw [wordsOf_intercalate, wordsOf_intercalate]
    exact hsublist.flatMap wordsOf

namespace Content.RevealsBut

variable {before after : Content α}

theorem visibleTexts (hreveals : before.RevealsBut [] after) :
    before.visibleTexts.length ≤ after.visibleTexts.length ∧ before.words.Sublist after.words := by
  rw [words, words, Content.visibleTexts, Content.visibleTexts]
  have hobjects := hreveals.textObjects
  generalize before.textObjects = objects at hobjects
  generalize after.textObjects = others at hobjects
  induction hobjects with
  | nil => exact ⟨Nat.le_refl _, .refl _⟩
  | @cons object other _ others hhead _ ih =>
    cases htext : object.visibleText? with
    | none =>
      rw [List.filterMap_cons_none htext]
      have htail := (List.sublist_cons_self other others).filterMap TextObject.visibleText?
      exact ⟨ih.1.trans htail.length_le, ih.2.trans (htail.flatMap wordsOf)⟩
    | some text =>
      obtain ⟨more, hmore, hwords⟩ := hhead.exists_visibleText? htext
      rw [List.filterMap_cons_some htext, List.filterMap_cons_some hmore]
      exact ⟨Nat.succ_le_succ ih.1, hwords.append ih.2⟩

end Content.RevealsBut

namespace Request

theorem RevealsBut.length_baseLines {before after : Request α}
    (hreveals : before.RevealsBut [] after) :
    before.baseLines.length ≤ after.baseLines.length := by
  obtain ⟨htexts, hsublist⟩ := hreveals.content.visibleTexts
  have hwords : before.words.length ≤ after.words.length := hsublist.length_le
  rw [Request.length_baseLines, Request.length_baseLines, hreveals.stackLines]
  split
  · split <;> split <;> omega
  · exact htexts

/-- What could be seen can be seen when more is revealed. -/
theorem RevealsBut.hasVisibleContent {before after : Request α}
    (hreveals : before.RevealsBut [] after) (hvisible : before.hasVisibleContent = true) :
    after.hasVisibleContent = true := by
  rw [hasVisibleContent_iff] at hvisible ⊢
  obtain ⟨level, hfirst, hlast, hshown⟩ | ⟨symbol, hsymbol, hshown⟩ := hvisible
  · refine Or.inl ⟨level, hfirst, hlast.trans hreveals.length_baseLines, fun hhidden => ?_⟩
    obtain hbefore | hnone := hreveals.hiddenLevels level hhidden
    · exact hshown hbefore
    · cases hnone
  · obtain ⟨other, hother, hrelated⟩ := exists_of_mem_of_forall₂ hreveals.content.symbols hsymbol
    have hflag := hrelated.hidden
    refine Or.inr ⟨other, hother, ?_⟩
    simp_all [FlagBut]

/-! ### Where the text is broken anew -/

theorem words_eq_nil_of_visibleTexts {request : Request α}
    (hnone : request.content.visibleTexts = []) : request.words = [] := by
  rw [words, Content.words, hnone]
  rfl

theorem hasVisibleContent_of_stack? {request stacked : Request α} {lines : Nat}
    (hstacked : request.stack? lines = some stacked) : stacked.hasVisibleContent = true := by
  rw [stack?] at hstacked
  split at hstacked
  · cases hstacked
  rename_i henough
  obtain rfl := Option.some.inj hstacked
  have hlines : lines ≠ 0 ∧ lines ≤ request.words.length := by simpa using henough
  have htexts : 0 < request.content.visibleTexts.length := by
    refine List.length_pos_iff.mpr fun hnone => ?_
    rw [words_eq_nil_of_visibleTexts hnone] at hlines
    exact hlines.1 (Nat.le_zero.mp hlines.2)
  refine hasVisibleContent_iff.mpr (Or.inl ⟨1, Nat.le_refl _, ?_, List.not_mem_nil⟩)
  rw [length_baseLines]
  change 1 ≤ if 1 < lines then if request.words.length < lines then min 1 request.words.length
    else lines else request.content.visibleTexts.length
  split
  · split <;> omega
  · exact htexts

theorem hasVisibleContent_unstack {request : Request α}
    (hvisible : request.hasVisibleContent = true) : request.unstack.hasVisibleContent = true := by
  rw [hasVisibleContent_iff] at hvisible ⊢
  obtain ⟨level, hfirst, hlast, -⟩ | hsymbol := hvisible
  · refine Or.inl ⟨1, Nat.le_refl _, ?_, List.not_mem_nil⟩
    change 1 ≤ request.content.visibleTexts.length
    refine List.length_pos_iff.mpr fun hnone => ?_
    rw [length_baseLines, words_eq_nil_of_visibleTexts hnone, hnone] at hlast
    simp only [List.length_nil] at hlast
    split at hlast
    · split at hlast <;> omega
    · omega
  · exact Or.inr hsymbol

end Request

/-! ### Where a hide loop goes on -/

theorem HideAttempt.hasVisibleContent_firstUsable (attempts : List HideAttempt)
    {request : Request α} (hvisible : request.hasVisibleContent = true) :
    (firstUsable request attempts).2.2.hasVisibleContent = true := by
  induction attempts generalizing request with
  | nil => exact hvisible
  | cons attempt rest ih =>
    simp only [firstUsable]
    split
    · rename_i husable
      exact (Bool.and_eq_true_iff.mp husable).2
    · exact ih ((Request.RevealsBut.restore_hideAll attempt.targets request).hasVisibleContent
        hvisible)

/-! ### Every point of a run -/

/-- The label has something to be seen, and had it at every visit. -/
structure Run.Visible (run : Run α) : Prop where
  now : run.request.hasVisibleContent = true
  visits : ∀ visit ∈ run.visits, visit.request.hasVisibleContent = true

theorem Run.Visible.of_agrees {before after : Run α} (hvisible : before.Visible)
    (hagrees : before.Agrees after) (hafter : after.request.hasVisibleContent = true) :
    after.Visible :=
  ⟨hafter, hagrees.visits ▸ hvisible.visits⟩

theorem Run.Visible.settled [Scalar α] {before after : Run α} (hvisible : before.Visible)
    (hsettled : Settled before after) : after.Visible := by
  cases hsettled with
  | placed | deferred | suppressed => exact ⟨hvisible.now, hvisible.visits⟩

namespace LoopKind

theorem hasVisibleContent_reenter [Scalar α] (kind : LoopKind α) (state : kind.State)
    {run : Run α} (hvisible : run.request.hasVisibleContent = true) :
    (kind.reenter state run).run.request.hasVisibleContent = true := by
  match kind, state with
  | .relax _, state =>
    rw [reenter]
    split <;> exact hvisible
  | .bufferSize .., state | .fontSize .., state =>
    simp only [reenter]
    split <;> split <;> exact hvisible
  | .stack .., state =>
    rw [reenter]
    split
    · split <;> exact hvisible
    · split
      · exact hvisible
      · split
        · exact hvisible
        · rename_i stacked hstacked
          exact Request.hasVisibleContent_of_stack? hstacked
  | .hide _, state =>
    exact HideAttempt.hasVisibleContent_firstUsable state.pending
      ((Request.RevealsBut.foldl_restore state.hidden run.request).hasVisibleContent hvisible)

theorem hasVisibleContent_finish (kind : LoopKind α) (state : kind.State) {run : Run α}
    (hvisible : run.request.hasVisibleContent = true) :
    (kind.finish state run).request.hasVisibleContent = true := by
  match kind, state with
  | .relax _, _ | .bufferSize .., _ | .fontSize .., _ => exact hvisible
  | .hide _, state =>
    exact (Request.RevealsBut.foldl_restore state.hidden run.request).hasVisibleContent hvisible
  | .stack .., state =>
    simp only [finish, Run.mapRequest]
    split
    · exact Request.hasVisibleContent_unstack hvisible
    · cases hstacked : run.request.stack? state.entry with
      | none => exact Request.hasVisibleContent_unstack hvisible
      | some stacked => exact Request.hasVisibleContent_of_stack? hstacked

theorem hasVisibleContent_restoreDeclared (kind : LoopKind α) {run : Run α}
    (hvisible : run.request.hasVisibleContent = true) :
    (kind.restoreDeclared run).request.hasVisibleContent = true := by
  cases kind with
  | stack => exact Request.hasVisibleContent_unstack hvisible
  | relax | bufferSize | fontSize | hide => exact hvisible

end LoopKind

namespace Sequence

variable [Trigonometric α]

theorem maintains_visible (sequence : Sequence α) :
    sequence.Maintains Run.Visible fun _ _ => True where
  visit position command hvisible := by
    refine ⟨hvisible.now, fun visit hmem => ?_⟩
    obtain rfl | hearlier := List.mem_cons.mp hmem
    · exact hvisible.now
    · exact hvisible.visits visit hearlier
  note _ hvisible := ⟨hvisible.now, hvisible.visits⟩
  begins _ _ _ := trivial
  reenter _ _ _ _ _ hvisible :=
    ⟨trivial, hvisible.of_agrees (LoopKind.agrees_reenter _ _ _)
      (LoopKind.hasVisibleContent_reenter _ _ hvisible.now)⟩
  finish kind _ _ _ hvisible :=
    hvisible.of_agrees (kind.agrees_finish _ _) (kind.hasVisibleContent_finish _ hvisible.now)
  restore kind _ hvisible :=
    hvisible.of_agrees (kind.agrees_restoreDeclared _)
      (kind.hasVisibleContent_restoreDeclared hvisible.now)

/-- **Something to be seen.** A run of a label that has something to be seen when it starts comes to
its end, and at every point up to there the label has something to be seen, as it had whenever a
command was carried out. A placement recorded by then tells how the label was when one of these
commands placed it, with a line of text or a symbol to be seen. -/
theorem placements_show_content (sequence : Sequence α) (workspace : Workspace α)
    {request : Request α} (hvisible : request.hasVisibleContent = true) :
    (∃ steps, sequence.progress (.start workspace request) steps =
      ⟨[], sequence.execute (.start workspace request)⟩) ∧
    ∀ steps,
      let run := (sequence.progress (.start workspace request) steps).outcome.2
      run.request.hasVisibleContent = true ∧
      (∀ visit ∈ run.visits, visit.request.hasVisibleContent = true) ∧
      (run.request.placement = request.placement ∨
        ∃ visit ∈ run.visits, ∃ placement, run.request.placement = some placement ∧
          placement.Tells visit.request ∧
          (placement.lines ≠ [] ∨ visit.request.visibleSymbols ≠ [])) := by
  refine ⟨sequence.exists_progress_eq _, fun steps => ?_⟩
  intro run
  have hstart : (Run.start workspace request).Visible :=
    ⟨hvisible, fun _ hmem => absurd hmem List.not_mem_nil⟩
  have hrun : run.Visible := sequence.maintains_visible.at_every_point
    (fun _ _ hvisible hsettled => hvisible.settled hsettled) hstart steps
  refine ⟨hrun.now, hrun.visits, ?_⟩
  obtain hsame | ⟨visit, hmem, placement, hplacement, htells⟩ :=
    sequence.records_of_visits (.start workspace request) steps
  · exact Or.inl hsame
  · refine Or.inr ⟨visit, hmem, placement, hplacement, htells, ?_⟩
    have hshown := hrun.visits visit hmem
    rw [htells.lines]
    simpa [Request.hasVisibleContent] using hshown

/-- A town has room for one of its two lines. The attempt that would hide both is passed over, and
the town is placed without its note. -/
theorem crowded_town_shows_its_name :
    let name : TextObject := { name := "name", components := [{ name := "name", text := "Ab" }] }
    let note : TextObject := { name := "note", components := [{ name := "note", text := "Cd" }] }
    let attempts : List HideAttempt :=
      [⟨[⟨.textObject, [.textObject "name", .textObject "note"]⟩]⟩,
        ⟨[⟨.textObject, [.textObject "note"]⟩]⟩]
    let sequence : Sequence Rat :=
      { entries := [⟨1, .point ⟨[.north], 0⟩⟩, ⟨2, .loop ⟨.hide attempts, some 1⟩⟩], nextId := 3 }
    let workspace : Workspace Rat :=
      { Workspace.empty .standard with
          index := .insert .empty ⟨.label 99, ⟨⟨-50, 16⟩, ⟨50, 50⟩⟩⟩ }
    let request : Request Rat :=
      .create 1 1 "town" (.point ⟨0, 0⟩) { textObjects := [name, note], symbols := [] } ⟨10, ⟨1, 1⟩⟩
    let final := (sequence.execute (.start workspace request)).2
    request.hasVisibleContent = true ∧ final.request.hasVisibleContent = true ∧
      final.visits.map (·.request.lines) = [["Ab"], ["Ab", "Cd"], ["Ab", "Cd"]] ∧
      ∃ visit ∈ final.visits, ∃ placement, final.request.placement = some placement ∧
        placement.Tells visit.request ∧
        (placement.lines ≠ [] ∨ visit.request.visibleSymbols ≠ []) := by
  intro name note attempts sequence workspace request final
  have hvisible : request.hasVisibleContent = true := by decide +kernel
  have hplaced : final.request.placement.isSome = true := by decide +kernel
  obtain ⟨⟨steps, hend⟩, hpoints⟩ := placements_show_content sequence workspace hvisible
  obtain ⟨hnow, -, hrecorded⟩ := hpoints steps
  rw [hend] at hnow hrecorded
  refine ⟨hvisible, hnow, by decide +kernel, hrecorded.resolve_left fun hsame => ?_⟩
  rw [show final.request.placement = none from hsame] at hplaced
  cases hplaced

end Sequence

end LabelPlacement
