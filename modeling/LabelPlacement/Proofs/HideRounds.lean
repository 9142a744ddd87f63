import LabelPlacement.Proofs.HideLoops

/-!
# Rounds of a hide loop

Where no two elements of a kind share a name, a name is hidden as hiding sees it just when an
element of it is hidden (`Request.mem_hiddenElements_iff`). Undoing an attempt then gives back the
request that it was made on, however far the attempt got. So every attempt of a hide loop is made on
the request of the beginning, and each round takes the next attempt that can be used on that.
-/

namespace LabelPlacement

variable {α : Type}

/-! ### Distinct names -/

namespace Flags

theorem lookup_eq_some_iff {flags : Flags} (hdistinct : (flags.map Prod.fst).Nodup) {name : String}
    {set : Bool} : flags.lookup name = some set ↔ (name, set) ∈ flags := by
  induction flags with
  | nil => simp
  | cons flag rest ih =>
    obtain ⟨first, hidden⟩ := flag
    rw [List.map_cons, List.nodup_cons] at hdistinct
    rw [lookup_cons, List.mem_cons, Prod.mk.injEq]
    by_cases hname : first = name
    · subst hname
      have hnone : (first, set) ∉ rest :=
        fun hmem => hdistinct.1 (List.mem_map.mpr ⟨_, hmem, rfl⟩)
      simp [hnone, eq_comm]
    · simp [hname, Ne.symm hname, ih hdistinct.2]

theorem mem_of_lookup {flags : Flags} {name : String} {set : Bool}
    (hlookup : flags.lookup name = some set) : (name, set) ∈ flags := by
  induction flags with
  | nil => simp at hlookup
  | cons flag rest ih =>
    rw [lookup_cons] at hlookup
    split at hlookup
    · rename_i hname
      rw [← hname, ← Option.some.inj hlookup]
      exact List.mem_cons_self
    · exact List.mem_cons_of_mem flag (ih hlookup)

theorem lookup_of_hide_eq {flags changed : Flags} {name : String} {outcome : HideOutcome}
    (hhide : flags.hide name = (outcome, changed)) (hfound : outcome ≠ .missing) :
    changed.lookup name = some true := by
  induction flags generalizing changed with
  | nil => exact absurd (Prod.mk.inj hhide).1.symm hfound
  | cons flag rest ih =>
    rw [hide_cons] at hhide
    split at hhide
    · rename_i hname
      obtain ⟨-, rfl⟩ := Prod.mk.inj hhide
      rw [lookup_cons, if_pos hname]
    · rename_i hname
      obtain ⟨rfl, rfl⟩ := Prod.mk.inj hhide
      rw [lookup_cons, if_neg hname]
      exact ih rfl

end Flags

namespace Content

/-- No two elements of a kind share a name. -/
structure Distinct (content : Content α) : Prop where
  components : (content.componentFlags.map Prod.fst).Nodup
  objects : (content.objectFlags.map Prod.fst).Nodup
  symbols : (content.symbolFlags.map Prod.fst).Nodup

/-- What is hidden shows in the flags of its kind. -/
theorem mem_hiddenElements_cases {content : Content α} {element : Element} :
    element ∈ content.hiddenElements ↔
      match element with
      | .textComponent name => (name, true) ∈ content.componentFlags
      | .symbolComponent name => (name, true) ∈ content.symbolFlags
      | .textObject name => (name, true) ∈ content.objectFlags
      | .stackLevel _ => False := by
  cases element with
  | textComponent name =>
    simp only [textComponent_mem_hiddenElements, componentFlags, TextObject.componentFlags,
      List.mem_flatMap, List.mem_map, Prod.mk.injEq]
    grind
  | symbolComponent name =>
    simp only [symbolComponent_mem_hiddenElements, symbolFlags, List.mem_map, Prod.mk.injEq]
    grind
  | textObject name =>
    simp only [textObject_mem_hiddenElements, objectFlags, List.mem_map, Prod.mk.injEq]
    grind
  | stackLevel level => simp

theorem IsHidden.mem_hiddenElements {content : Content α} {element : Element}
    (hhidden : content.IsHidden element) : element ∈ content.hiddenElements := by
  rw [mem_hiddenElements_cases]
  cases element with
  | textComponent name | symbolComponent name | textObject name => exact Flags.mem_of_lookup hhidden
  | stackLevel level => exact hhidden

theorem Distinct.isHidden {content : Content α} (hdistinct : content.Distinct) {element : Element}
    (hmem : element ∈ content.hiddenElements) : content.IsHidden element := by
  rw [mem_hiddenElements_cases] at hmem
  cases element with
  | textComponent name => exact (Flags.lookup_eq_some_iff hdistinct.components).mpr hmem
  | symbolComponent name => exact (Flags.lookup_eq_some_iff hdistinct.symbols).mpr hmem
  | textObject name => exact (Flags.lookup_eq_some_iff hdistinct.objects).mpr hmem
  | stackLevel level => exact hmem

theorem isHidden_hide {content : Content α} {element : Element}
    (hfound : (content.hide element).1 ≠ .missing) : (content.hide element).2.IsHidden element := by
  cases element with
  | stackLevel level => exact absurd rfl hfound
  | textComponent name => exact Flags.lookup_of_hide_eq (content.componentFlags_hide name) hfound
  | symbolComponent name => exact Flags.lookup_of_hide_eq (content.symbolFlags_hide name) hfound
  | textObject name => exact Flags.lookup_of_hide_eq (content.objectFlags_hide name) hfound

end Content

namespace Request

theorem IsHidden.mem_hiddenElements {request : Request α} {element : Element}
    (hhidden : request.IsHidden element) : element ∈ request.hiddenElements := by
  rw [Request.mem_hiddenElements]
  exact hhidden.imp_left Content.IsHidden.mem_hiddenElements

theorem mem_hiddenElements_iff {request : Request α} (hdistinct : request.content.Distinct)
    {element : Element} : element ∈ request.hiddenElements ↔ request.IsHidden element := by
  refine ⟨fun hmem => ?_, IsHidden.mem_hiddenElements⟩
  rw [Request.mem_hiddenElements] at hmem
  exact hmem.imp_left hdistinct.isHidden

theorem isHidden_hide {request : Request α} {element : Element}
    (hfound : (request.hide element).1 ≠ .missing) : (request.hide element).2.IsHidden element := by
  obtain ⟨level, rfl⟩ | hkind := element.level_or_content
  · rw [hide] at hfound ⊢
    split
    · rename_i hmissing
      rw [if_pos hmissing] at hfound
      exact absurd rfl hfound
    · split
      · rename_i hlevel
        exact Or.inr ⟨level, List.contains_iff_mem.mp hlevel, rfl⟩
      · exact Or.inr ⟨level, Working.mem_insertLevel.mpr (Or.inl rfl), rfl⟩
  · rw [hide_content request hkind] at hfound ⊢
    exact Or.inl (Content.isHidden_hide hfound)

/-! ### Hiding one element after the other -/

/-- The request after hiding elements in order. -/
def hideEach (request : Request α) (targets : List Element) : Request α :=
  targets.foldl (fun request target => (request.hide target).2) request

/-- Whether every element is there when it is its turn to be hidden. -/
def findsEach : Request α → List Element → Bool
  | _, [] => true
  | request, target :: rest =>
    (request.hide target).1.found && (request.hide target).2.findsEach rest

theorem IsHidden.hideEach {request : Request α} {element : Element}
    (hhidden : request.IsHidden element) (targets : List Element) :
    (request.hideEach targets).IsHidden element := by
  induction targets generalizing request with
  | nil => exact hhidden
  | cons target rest ih => exact ih (hhidden.hide target)

theorem isHidden_hideEach {request : Request α} {targets : List Element}
    (hfound : request.findsEach targets = true) {element : Element} (hmem : element ∈ targets) :
    (request.hideEach targets).IsHidden element := by
  induction targets generalizing request with
  | nil => exact absurd hmem List.not_mem_nil
  | cons target rest ih =>
    rw [findsEach, Bool.and_eq_true] at hfound
    obtain rfl | hrest := List.mem_cons.mp hmem
    · refine IsHidden.hideEach (isHidden_hide fun hmissing => ?_) rest
      rw [hmissing] at hfound
      exact Bool.false_ne_true hfound.1
    · exact ih hfound.2 hrest

theorem mem_hiddenElements_hideEach_cases {request : Request α} {targets : List Element}
    {element : Element} (hmem : element ∈ (request.hideEach targets).hiddenElements) :
    element ∈ request.hiddenElements ∨ element ∈ targets := by
  induction targets generalizing request with
  | nil => exact Or.inl hmem
  | cons target rest ih =>
    obtain hchanged | hrest := ih hmem
    · obtain hkept | ⟨-, rfl⟩ := mem_hiddenElements_hide hchanged
      · exact Or.inl hkept
      · exact Or.inr List.mem_cons_self
    · exact Or.inr (List.mem_cons_of_mem target hrest)

/-- Where all elements are there, just they are hidden afterwards, and what was hidden before. -/
theorem mem_hiddenElements_hideEach {request : Request α} (hdistinct : request.content.Distinct)
    {targets : List Element} (hfound : request.findsEach targets = true) {element : Element} :
    element ∈ (request.hideEach targets).hiddenElements ↔
      element ∈ request.hiddenElements ∨ element ∈ targets := by
  refine ⟨mem_hiddenElements_hideEach_cases, ?_⟩
  rintro (hhidden | htarget)
  · exact (((mem_hiddenElements_iff hdistinct).mp hhidden).hideEach targets).mem_hiddenElements
  · exact (isHidden_hideEach hfound htarget).mem_hiddenElements

end Request

/-! ### Attempts -/

namespace HideAttempt

/-- An attempt can be used when all its elements are there and something is left to be seen. -/
def isUsable (attempt : HideAttempt) (request : Request α) : Bool :=
  request.findsEach attempt.targets && (request.hideEach attempt.targets).hasVisibleContent

theorem hideAll_complete (request : Request α) (targets : List Element) :
    (hideAll request targets).1 = request.findsEach targets ∧
      (request.findsEach targets = true →
        (hideAll request targets).2.2 = request.hideEach targets) := by
  induction targets generalizing request with
  | nil => exact ⟨rfl, fun _ => rfl⟩
  | cons target rest ih =>
    rw [hideAll, Request.findsEach]
    cases hhide : request.hide target with
    | mk outcome changed =>
      have hrest : request.hideEach (target :: rest) = changed.hideEach rest := by
        rw [Request.hideEach, List.foldl_cons, hhide]
        rfl
      cases outcome with
      | missing => exact ⟨rfl, fun hfound => absurd hfound Bool.false_ne_true⟩
      | hidden | alreadyHidden =>
        rw [hrest]
        exact ih changed

/-- Undoing an attempt gives back the request that it was made on. -/
theorem restored_hideAll {request : Request α} (hdistinct : request.content.Distinct)
    (targets : List Element) :
    (hideAll request targets).2.1.foldl Request.restore (hideAll request targets).2.2 =
      request := by
  rw [foldl_restore_hideAll]
  refine Request.foldl_restore_of_notMem fun element hnoted hhidden => ?_
  exact (noted_hideAll hnoted).2 ((Request.mem_hiddenElements_iff hdistinct).mp hhidden)

/-- The attempts that can be used on a request. -/
def usable (request : Request α) (attempts : List HideAttempt) : List HideAttempt :=
  attempts.filter (·.isUsable request)

theorem usable_append_cons {request : Request α} {skipped rest : List HideAttempt}
    {attempt : HideAttempt} (hskipped : ∀ other ∈ skipped, other.isUsable request = false)
    (husable : attempt.isUsable request = true) :
    usable request (skipped ++ attempt :: rest) = attempt :: usable request rest := by
  have hnone : skipped.filter (·.isUsable request) = [] := by
    refine List.filter_eq_nil_iff.mpr fun other hother husable => ?_
    exact Bool.false_ne_true ((hskipped other hother).symm.trans husable)
  rw [usable, List.filter_append, hnone, List.nil_append]
  exact List.filter_cons_of_pos husable

theorem usable_eq_nil {request : Request α} {attempts : List HideAttempt}
    (hnone : ∀ attempt ∈ attempts, attempt.isUsable request = false) :
    usable request attempts = [] := by
  refine List.filter_eq_nil_iff.mpr fun attempt hmem husable => ?_
  exact Bool.false_ne_true ((hnone attempt hmem).symm.trans husable)

/-- The first attempt that can be used is taken, and those before it have left no trace. -/
theorem firstUsable_cases {request : Request α} (hdistinct : request.content.Distinct)
    (attempts : List HideAttempt) :
    (∃ skipped attempt rest noted, attempts = skipped ++ attempt :: rest ∧
      (∀ other ∈ skipped, other.isUsable request = false) ∧ attempt.isUsable request = true ∧
      firstUsable request attempts =
        (true, ⟨rest, noted⟩, request.hideEach attempt.targets) ∧
      noted.foldl Request.restore (request.hideEach attempt.targets) = request) ∨
    ((∀ attempt ∈ attempts, attempt.isUsable request = false) ∧
      firstUsable request attempts = (false, ⟨[], []⟩, request)) := by
  induction attempts with
  | nil => exact Or.inr ⟨fun _ hmem => absurd hmem List.not_mem_nil, rfl⟩
  | cons attempt rest ih =>
    obtain ⟨hcomplete, hchanged⟩ := hideAll_complete request attempt.targets
    have hrestored := restored_hideAll hdistinct attempt.targets
    have husable : ((hideAll request attempt.targets).1 &&
        (hideAll request attempt.targets).2.2.hasVisibleContent) = attempt.isUsable request := by
      rw [isUsable, hcomplete]
      cases hfound : request.findsEach attempt.targets with
      | false => rfl
      | true => rw [hchanged hfound]
    simp only [firstUsable, husable, hrestored]
    cases hthis : attempt.isUsable request with
    | true =>
      have hfound : request.findsEach attempt.targets = true := (Bool.and_eq_true_iff.mp hthis).1
      rw [hchanged hfound] at hrestored ⊢
      exact Or.inl ⟨[], attempt, rest, _, rfl, by simp, hthis, rfl, hrestored⟩
    | false =>
      simp only [Bool.false_eq_true, if_false]
      obtain ⟨skipped, next, later, noted, rfl, hskipped, hnext, htaken, hback⟩ | ⟨hnone, hover⟩ :=
        ih
      · refine Or.inl ⟨attempt :: skipped, next, later, noted, rfl, ?_, hnext, htaken, hback⟩
        exact List.forall_mem_cons.mpr ⟨hthis, hskipped⟩
      · exact Or.inr ⟨List.forall_mem_cons.mpr ⟨hthis, hnone⟩, hover⟩

end HideAttempt

/-! ### Rounds -/

namespace LoopKind

variable [Scalar α]

/-- Between two rounds of a hide loop: the attempts not yet made are the last ones of the loop, and
undoing the present attempt gives back the run as it was when the loop began. -/
structure Undoable (attempts : List HideAttempt) (run : Run α) (state : HideState)
    (entered : Run α) : Prop where
  visited : ∃ visited, attempts = visited ++ state.pending
  undone :
    { entered with request := state.hidden.foldl Request.restore entered.request } = run

/-- A round takes the first attempt not yet made that can be used; if there is none, the run is as
it was when the loop began. -/
theorem Undoable.reenter_cases {attempts : List HideAttempt} {run entered : Run α}
    {state : HideState} (hundoable : Undoable attempts run state entered)
    (hdistinct : run.request.content.Distinct) :
    let next := (LoopKind.hide attempts).reenter state entered
    (∃ skipped attempt, state.pending = skipped ++ attempt :: next.state.pending ∧
      (∀ other ∈ skipped, other.isUsable run.request = false) ∧
      attempt.isUsable run.request = true ∧ next.again = true ∧
      next.run = { run with request := run.request.hideEach attempt.targets } ∧
      next.state.hidden.foldl Request.restore next.run.request = run.request) ∨
    ((∀ attempt ∈ state.pending, attempt.isUsable run.request = false) ∧ next.again = false ∧
      next.state = ⟨[], []⟩ ∧ next.run = run) := by
  intro next
  have hrequest : state.hidden.foldl Request.restore entered.request = run.request :=
    congrArg Run.request hundoable.undone
  have hrun (request : Request α) : { entered with request } = { run with request } :=
    congrArg (fun entered : Run α => { entered with request }) hundoable.undone
  obtain ⟨skipped, attempt, rest, noted, hpending, hskipped, husable, htaken, hback⟩ |
    ⟨hnone, hover⟩ := HideAttempt.firstUsable_cases hdistinct state.pending
  · have hnext : next = ⟨true, ⟨rest, noted⟩,
        { run with request := run.request.hideEach attempt.targets }⟩ := by
      simp only [next, reenter, hrequest, htaken, hrun]
    rw [hnext]
    exact Or.inl ⟨skipped, attempt, hpending, hskipped, husable, rfl, rfl, hback⟩
  · have hnext : next = ⟨false, ⟨[], []⟩, run⟩ := by
      simp only [next, reenter, hrequest, hover, hrun]
    rw [hnext]
    exact Or.inr ⟨hnone, rfl, rfl, rfl⟩

theorem Undoable.reenter {attempts : List HideAttempt} {run entered : Run α} {state : HideState}
    (hundoable : Undoable attempts run state entered)
    (hdistinct : run.request.content.Distinct) :
    Undoable attempts run ((LoopKind.hide attempts).reenter state entered).state
      ((LoopKind.hide attempts).reenter state entered).run := by
  obtain ⟨visited, hvisited⟩ := hundoable.visited
  obtain ⟨skipped, attempt, hpending, -, -, -, hrun, hback⟩ | ⟨-, -, hstate, hrun⟩ :=
    hundoable.reenter_cases hdistinct
  · refine ⟨⟨visited ++ skipped ++ [attempt], ?_⟩, ?_⟩
    · rw [List.append_assoc, List.append_assoc, List.singleton_append, ← hpending]
      exact hvisited
    · rw [hback, hrun]
  · rw [hstate, hrun]
    exact ⟨⟨attempts, (List.append_nil attempts).symm⟩, rfl⟩

/-- After some rounds, the attempts that can still be used are those after as many usable ones. -/
theorem undoable_reentered (attempts : List HideAttempt) {run : Run α}
    (hdistinct : run.request.content.Distinct) (times : Nat) :
    let entered := (LoopKind.hide attempts).reentered run times
    Undoable attempts run entered.1 entered.2 ∧
      HideAttempt.usable run.request entered.1.pending =
        (HideAttempt.usable run.request attempts).drop times := by
  induction times with
  | zero => exact ⟨⟨⟨[], rfl⟩, rfl⟩, rfl⟩
  | succ times ih =>
    obtain ⟨hundoable, hpending⟩ := ih
    refine ⟨hundoable.reenter hdistinct, ?_⟩
    rw [← List.drop_drop, ← hpending]
    obtain ⟨skipped, attempt, hbefore, hskipped, husable, -⟩ | ⟨hnone, -, hstate, -⟩ :=
      hundoable.reenter_cases hdistinct
    · rw [hbefore, HideAttempt.usable_append_cons hskipped husable, List.drop_one, List.tail_cons]
      rfl
    · rw [HideAttempt.usable_eq_nil hnone, List.drop_nil]
      exact congrArg (fun state : HideState => HideAttempt.usable run.request state.pending) hstate

/-- **Rounds of a hide loop.** Where names are distinct and the rounds themselves change nothing, a
hide loop makes its attempts in order, each at most once. It is re-entered once for each attempt
that can be used on the request of the beginning, and so just as long as there is one not yet made:
the loop then takes the first such attempt, and just its elements are hidden besides those that
were. When there is none, the run is as it was when the loop began. -/
theorem hide_rounds_in_order (attempts : List HideAttempt) (run : Run α)
    (hdistinct : run.request.content.Distinct) (times : Nat) :
    let before := (LoopKind.hide attempts).reentered run times
    let next := (LoopKind.hide attempts).reenter before.1 before.2
    (∃ visited, attempts = visited ++ before.1.pending) ∧
    (next.again = true ↔ ((HideAttempt.usable run.request attempts)[times]?).isSome = true) ∧
    (next.again = true ↔
      ∃ attempt ∈ before.1.pending, attempt.isUsable run.request = true) ∧
    (next.again = true → ∃ skipped attempt,
      before.1.pending = skipped ++ attempt :: next.state.pending ∧
      (∀ other ∈ skipped, other.isUsable run.request = false) ∧
      attempt.isUsable run.request = true ∧
      (HideAttempt.usable run.request attempts)[times]? = some attempt ∧
      next.run = { run with request := run.request.hideEach attempt.targets } ∧
      ∀ element, element ∈ next.run.request.hiddenElements ↔
        element ∈ run.request.hiddenElements ∨ element ∈ attempt.targets) ∧
    (next.again = false → next.state.pending = [] ∧ next.run = run) := by
  intro before next
  obtain ⟨hundoable, hpending⟩ := undoable_reentered attempts hdistinct times
  refine ⟨hundoable.visited, ?_⟩
  obtain ⟨skipped, attempt, hbefore, hskipped, husable, hagain, hrun, -⟩ |
    ⟨hnone, hagain, hstate, hrun⟩ := hundoable.reenter_cases hdistinct
  · have hmem : attempt ∈ before.1.pending :=
      hbefore ▸ List.mem_append_right skipped List.mem_cons_self
    have hindex : (HideAttempt.usable run.request attempts)[times]? = some attempt := by
      rw [← List.head?_drop, ← hpending, hbefore,
        HideAttempt.usable_append_cons hskipped husable, List.head?_cons]
    refine ⟨⟨fun _ => Option.isSome_of_eq_some hindex, fun _ => hagain⟩,
      ⟨fun _ => ⟨attempt, hmem, husable⟩, fun _ => hagain⟩, fun _ => ?_, fun hover => ?_⟩
    · refine ⟨skipped, attempt, hbefore, hskipped, husable, hindex, hrun, fun element => ?_⟩
      rw [hrun]
      exact Request.mem_hiddenElements_hideEach hdistinct (Bool.and_eq_true_iff.mp husable).1
    · exact absurd (hover.symm.trans hagain) Bool.false_ne_true
  · have hindex : (HideAttempt.usable run.request attempts)[times]? = none := by
      rw [← List.head?_drop, ← hpending, HideAttempt.usable_eq_nil hnone, List.head?_nil]
    refine ⟨⟨fun htaken => ?_, fun hsome => ?_⟩, ⟨fun htaken => ?_, ?_⟩, fun htaken => ?_,
      fun _ => ⟨by rw [hstate], hrun⟩⟩
    · exact absurd (hagain.symm.trans htaken) Bool.false_ne_true
    · rw [hindex] at hsome
      cases hsome
    · exact absurd (hagain.symm.trans htaken) Bool.false_ne_true
    · rintro ⟨attempt, hmem, husable⟩
      exact absurd ((hnone attempt hmem).symm.trans husable) Bool.false_ne_true
    · exact absurd (hagain.symm.trans htaken) Bool.false_ne_true

/-- An attempt that misses its second element is passed over, and so is one that leaves nothing to
be seen; the other two are made in turn on the label of the beginning, whose notice stays hidden. -/
theorem usable_attempts_are_made_in_turn :
    let request : Request Float :=
      .create 1 1 "town" (.point ⟨0, 0⟩)
        ⟨[⟨"main", [⟨"a", "Ab", false⟩, ⟨"b", "Cd", false⟩], false⟩,
          ⟨"notice", [⟨"c", "Ef", false⟩], true⟩], []⟩ ⟨10, ⟨1, 1⟩⟩
    let lost : HideAttempt := ⟨[⟨.textComponent, [.textComponent "a", .textComponent "z"]⟩]⟩
    let first : HideAttempt :=
      ⟨[⟨.textComponent, [.textComponent "b", .textComponent "b"]⟩,
        ⟨.textObject, [.textObject "notice"]⟩]⟩
    let empty : HideAttempt := ⟨[⟨.textObject, [.textObject "main"]⟩]⟩
    let second : HideAttempt := ⟨[⟨.textComponent, [.textComponent "a"]⟩]⟩
    let attempts : List HideAttempt := [lost, first, empty, second]
    let run := Run.start (.empty .standard) request
    let entered := (LoopKind.hide attempts).reentered run
    request.content.Distinct ∧
      (entered 1).2.request.hiddenElements = [.textComponent "b", .textObject "notice"] ∧
      (∀ element, element ∈ (entered 2).2.request.hiddenElements ↔
        element = .textObject "notice" ∨ element = .textComponent "a") ∧
      (entered 3).2 = run := by
  intro request lost first empty second attempts run entered
  have hdistinct : request.content.Distinct := ⟨by decide, by decide, by decide⟩
  refine ⟨hdistinct, by decide +kernel, ?_, ?_⟩
  · have hsecond : (HideAttempt.usable request attempts)[1]? = some second := by decide +kernel
    obtain ⟨-, hagain, -, htaken, -⟩ := hide_rounds_in_order attempts run hdistinct 1
    obtain ⟨-, attempt, -, -, -, hindex, -, hhidden⟩ :=
      htaken (hagain.mpr (Option.isSome_of_eq_some hsecond))
    have hattempt : attempt = second := Option.some.inj (hindex.symm.trans hsecond)
    intro element
    rw [hattempt] at hhidden
    refine (hhidden element).trans ?_
    change element ∈ [Element.textObject "notice"] ∨ element ∈ [Element.textComponent "a"] ↔ _
    rw [List.mem_singleton, List.mem_singleton]
  · exact ((hide_rounds_in_order attempts run hdistinct 2).2.2.2.2 (by decide +kernel)).2

end LoopKind

end LabelPlacement
