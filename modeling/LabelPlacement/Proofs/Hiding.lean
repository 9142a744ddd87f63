import LabelPlacement.Run.Loop

/-!
# Hidden elements

Hiding and restoring change flags only. What they leave alone is `Content.shown`, the content with
everything to be seen; what they change is the list of hidden elements, of which restoring takes an
element out and hiding adds at most the one it was asked for. Elements may share a name, so a flag
is only known by the name it stands at.
-/

namespace LabelPlacement

variable {α : Type}

/-! ### The content of a label -/

def TextComponent.shown (component : TextComponent) : TextComponent :=
  { component with hidden := false }

def TextObject.shown (object : TextObject) : TextObject :=
  { object with components := object.components.map TextComponent.shown, hidden := false }

def SymbolComponent.shown (symbol : SymbolComponent α) : SymbolComponent α :=
  { symbol with hidden := false }

/-- The content with every element to be seen. -/
def Content.shown (content : Content α) : Content α :=
  { textObjects := content.textObjects.map TextObject.shown
    symbols := content.symbols.map SymbolComponent.shown }

section HideFirst

variable {ι κ : Type} {chosen isHidden : ι → Bool} {hide : ι → ι}

/-- A view that does not see the flag of what is chosen does not see what was hidden. -/
theorem map_hideFirst (view : ι → κ)
    (hview : ∀ element, chosen element = true → view (hide element) = view element)
    (elements : List ι) :
    (hideFirst chosen isHidden hide elements).2.map view = elements.map view := by
  induction elements with
  | nil => rfl
  | cons element rest ih =>
    rw [hideFirst]
    split
    · rename_i hchosen
      split <;> simp [hview element hchosen]
    · simp [ih]

/-- An element is as it was, or it is one that was chosen, and was hidden just now. -/
theorem mem_hideFirst {element : ι} {elements : List ι}
    (hmem : element ∈ (hideFirst chosen isHidden hide elements).2) :
    element ∈ elements ∨ ((hideFirst chosen isHidden hide elements).1 = .hidden ∧
      ∃ original ∈ elements, chosen original = true ∧ element = hide original) := by
  induction elements with
  | nil => exact Or.inl hmem
  | cons first rest ih =>
    rw [hideFirst] at hmem ⊢
    split at hmem
    · rename_i hchosen
      split at hmem
      · exact Or.inl hmem
      · rename_i hvisible
        obtain rfl | hrest := List.mem_cons.mp hmem
        · exact Or.inr ⟨by simp [hchosen, hvisible], first, List.mem_cons_self, hchosen, rfl⟩
        · exact Or.inl (List.mem_cons_of_mem _ hrest)
    · rename_i hchosen
      obtain rfl | hrest := List.mem_cons.mp hmem
      · exact Or.inl List.mem_cons_self
      · obtain hkept | ⟨houtcome, original, horiginal, hnew⟩ := ih hrest
        · exact Or.inl (List.mem_cons_of_mem _ hkept)
        · exact Or.inr ⟨by simpa [hchosen] using houtcome, original,
            List.mem_cons_of_mem _ horiginal, hnew⟩

end HideFirst

namespace TextObject

/-- A view that does not see a component hidden in a text object does not see one hidden in any of
them. -/
theorem map_hideComponentIn {κ : Type} {name : String} (view : TextObject → κ)
    (hview : ∀ object : TextObject, view { object with
      components := (hideComponent name object.components).2 } = view object)
    (objects : List TextObject) :
    (hideComponentIn name objects).2.map view = objects.map view := by
  induction objects with
  | nil => rfl
  | cons object rest ih =>
    rw [hideComponentIn]
    split
    · simp [ih]
    · rename_i outcome components _ hhide
      have hobject := hview object
      rw [hhide] at hobject
      simp [hobject]

theorem map_shown_hideComponentIn (name : String) (objects : List TextObject) :
    (hideComponentIn name objects).2.map shown = objects.map shown := by
  refine map_hideComponentIn shown (fun object => ?_) objects
  simp only [shown, mk.injEq, and_true, true_and]
  exact map_hideFirst TextComponent.shown (fun _ _ => by rfl) object.components

theorem mem_hideComponentIn {name : String} {objects : List TextObject} {object : TextObject}
    (hmem : object ∈ (hideComponentIn name objects).2) :
    ∃ original ∈ objects, object.name = original.name ∧ object.hidden = original.hidden ∧
      ∀ component ∈ object.components, component ∈ original.components ∨
        ((hideComponentIn name objects).1 = .hidden ∧ component.name = name) := by
  induction objects with
  | nil => simp [hideComponentIn] at hmem
  | cons first rest ih =>
    rw [hideComponentIn] at hmem ⊢
    cases hhide : hideComponent name first.components with
    | mk outcome components =>
      cases outcome with
      | missing =>
        simp only [hhide] at hmem ⊢
        obtain rfl | hrest := List.mem_cons.mp hmem
        · exact ⟨object, List.mem_cons_self, rfl, rfl, fun component hin => Or.inl hin⟩
        · obtain ⟨original, horiginal, hname, hhidden, hcomponents⟩ := ih hrest
          exact ⟨original, List.mem_cons_of_mem _ horiginal, hname, hhidden, hcomponents⟩
      | alreadyHidden | hidden =>
        rw [hhide] at hmem
        simp only at hmem ⊢
        obtain rfl | hrest := List.mem_cons.mp hmem
        · refine ⟨first, List.mem_cons_self, rfl, rfl, fun component hin => ?_⟩
          obtain hkept | ⟨houtcome, original, _, hchosen, rfl⟩ := mem_hideFirst (by
            rw [← hideComponent, hhide]; exact hin)
          · exact Or.inl hkept
          · rw [← hideComponent, hhide] at houtcome
            exact Or.inr (by simpa using And.intro houtcome hchosen)
        · exact ⟨object, List.mem_cons_of_mem _ hrest, rfl, rfl, fun component hin => Or.inl hin⟩

end TextObject

namespace Content

@[simp]
theorem shown_hide (content : Content α) (element : Element) :
    (content.hide element).2.shown = content.shown := by
  cases element with
  | textComponent name => simp [hide, shown, TextObject.map_shown_hideComponentIn]
  | symbolComponent name =>
    simp only [hide, shown, mk.injEq, true_and]
    exact map_hideFirst SymbolComponent.shown (fun _ _ => by rfl) content.symbols
  | textObject name =>
    simp only [hide, shown, mk.injEq, and_true]
    exact map_hideFirst TextObject.shown (fun _ _ => by rfl) content.textObjects
  | stackLevel level => rfl

@[simp]
theorem shown_restore (content : Content α) (element : Element) :
    (content.restore element).shown = content.shown := by
  cases element with
  | textComponent name =>
    simp only [restore, shown, List.map_map, mk.injEq, and_true]
    refine List.map_congr_left fun object _ => ?_
    simp only [Function.comp, TextObject.shown, TextObject.showComponent, List.map_map]
    congr 1
    refine List.map_congr_left fun component _ => ?_
    by_cases hname : component.name = name <;> simp [TextComponent.shown, hname]
  | symbolComponent name =>
    simp only [restore, shown, List.map_map, mk.injEq, true_and]
    refine List.map_congr_left fun symbol _ => ?_
    by_cases hname : symbol.name = name <;> simp [SymbolComponent.shown, hname]
  | textObject name =>
    simp only [restore, shown, List.map_map, mk.injEq, and_true]
    refine List.map_congr_left fun object _ => ?_
    by_cases hname : object.name = name <;> simp [TextObject.shown, hname]
  | stackLevel level => rfl

/-! Membership in the list of hidden elements, kind by kind. -/

@[simp]
theorem textObject_mem_hiddenElements {content : Content α} {name : String} :
    .textObject name ∈ content.hiddenElements ↔
      ∃ object ∈ content.textObjects, object.hidden = true ∧ object.name = name := by
  simp only [hiddenElements, List.mem_append, List.mem_flatMap, TextObject.hiddenElements]
  constructor
  · rintro (⟨object, hobject, hhidden | hcomponent⟩ | hsymbol)
    · split at hhidden <;> simp_all
      exact ⟨object, hobject, by assumption, rfl⟩
    · simp at hcomponent
    · simp at hsymbol
  · rintro ⟨object, hobject, hhidden, rfl⟩
    exact Or.inl ⟨object, hobject, Or.inl (by simp [hhidden])⟩

@[simp]
theorem textComponent_mem_hiddenElements {content : Content α} {name : String} :
    .textComponent name ∈ content.hiddenElements ↔
      ∃ object ∈ content.textObjects, ∃ component ∈ object.components,
        component.hidden = true ∧ component.name = name := by
  simp only [hiddenElements, List.mem_append, List.mem_flatMap, TextObject.hiddenElements]
  constructor
  · rintro (⟨object, hobject, hhidden | hcomponent⟩ | hsymbol)
    · split at hhidden <;> simp at hhidden
    · simp only [List.mem_filterMap, Option.ite_none_right_eq_some, Option.some.injEq,
        Element.textComponent.injEq] at hcomponent
      obtain ⟨component, hcomponent, hhidden, hname⟩ := hcomponent
      exact ⟨object, hobject, component, hcomponent, hhidden, hname⟩
    · simp at hsymbol
  · rintro ⟨object, hobject, component, hcomponent, hhidden, rfl⟩
    refine Or.inl ⟨object, hobject, Or.inr ?_⟩
    exact List.mem_filterMap.mpr ⟨component, hcomponent, by simp [hhidden]⟩

@[simp]
theorem symbolComponent_mem_hiddenElements {content : Content α} {name : String} :
    .symbolComponent name ∈ content.hiddenElements ↔
      ∃ symbol ∈ content.symbols, symbol.hidden = true ∧ symbol.name = name := by
  simp only [hiddenElements, List.mem_append, List.mem_flatMap, TextObject.hiddenElements]
  constructor
  · rintro (⟨object, hobject, hhidden | hcomponent⟩ | hsymbol)
    · split at hhidden <;> simp at hhidden
    · simp at hcomponent
    · simpa using hsymbol
  · rintro ⟨symbol, hsymbol, hhidden, rfl⟩
    exact Or.inr (List.mem_filterMap.mpr ⟨symbol, hsymbol, by simp [hhidden]⟩)

@[simp]
theorem stackLevel_notMem_hiddenElements {content : Content α} {level : Nat} :
    .stackLevel level ∉ content.hiddenElements := by
  simp only [hiddenElements, List.mem_append, List.mem_flatMap, TextObject.hiddenElements]
  rintro (⟨object, hobject, hhidden | hcomponent⟩ | hsymbol)
  · split at hhidden <;> simp at hhidden
  · simp at hcomponent
  · simp at hsymbol

theorem mem_hiddenElements_restore {content : Content α} {target element : Element} :
    element ∈ (content.restore target).hiddenElements ↔
      element ∈ content.hiddenElements ∧ element ≠ target := by
  cases element with
  | stackLevel level => simp
  | textObject name =>
    cases target with
    | textObject other =>
      simp only [restore, textObject_mem_hiddenElements, List.mem_map, ne_eq,
        Element.textObject.injEq]
      grind
    | textComponent other =>
      simp only [restore, TextObject.showComponent, textObject_mem_hiddenElements, List.mem_map]
      grind
    | symbolComponent other | stackLevel other => simp [restore]
  | textComponent name =>
    cases target with
    | textComponent other =>
      simp only [restore, textComponent_mem_hiddenElements, List.mem_map, ne_eq,
        Element.textComponent.injEq]
      grind [TextObject.showComponent]
    | textObject other =>
      simp only [restore, textComponent_mem_hiddenElements, List.mem_map]
      grind
    | symbolComponent other | stackLevel other => simp [restore]
  | symbolComponent name =>
    cases target with
    | symbolComponent other =>
      simp only [restore, symbolComponent_mem_hiddenElements, List.mem_map, ne_eq,
        Element.symbolComponent.injEq]
      grind
    | textObject other | textComponent other | stackLevel other => simp [restore]

/-- Hiding adds at most the element it was asked for, and only if it says so. -/
theorem mem_hiddenElements_hide {content : Content α} {target element : Element}
    (hmem : element ∈ (content.hide target).2.hiddenElements) :
    element ∈ content.hiddenElements ∨
      ((content.hide target).1 = .hidden ∧ element = target) := by
  cases target with
  | stackLevel level => exact Or.inl hmem
  | textComponent name =>
    simp only [hide] at hmem ⊢
    cases element with
    | stackLevel level => simp at hmem
    | symbolComponent other => simpa using hmem
    | textObject other =>
      simp only [textObject_mem_hiddenElements] at hmem ⊢
      obtain ⟨object, hobject, hhidden, rfl⟩ := hmem
      obtain ⟨original, horiginal, hname, hflag, _⟩ := TextObject.mem_hideComponentIn hobject
      exact Or.inl ⟨original, horiginal, by rw [← hflag, hhidden], hname.symm⟩
    | textComponent other =>
      simp only [textComponent_mem_hiddenElements] at hmem ⊢
      obtain ⟨object, hobject, component, hcomponent, hhidden, rfl⟩ := hmem
      obtain ⟨original, horiginal, _, _, hcomponents⟩ := TextObject.mem_hideComponentIn hobject
      obtain hkept | ⟨houtcome, hname⟩ := hcomponents component hcomponent
      · exact Or.inl ⟨original, horiginal, component, hkept, hhidden, rfl⟩
      · exact Or.inr ⟨houtcome, by rw [hname]⟩
  | symbolComponent name =>
    simp only [hide] at hmem ⊢
    cases element with
    | stackLevel level => simp at hmem
    | textComponent other | textObject other => simpa using hmem
    | symbolComponent other =>
      simp only [symbolComponent_mem_hiddenElements] at hmem ⊢
      obtain ⟨symbol, hsymbol, hhidden, rfl⟩ := hmem
      obtain hkept | ⟨houtcome, original, _, hchosen, rfl⟩ := mem_hideFirst hsymbol
      · exact Or.inl ⟨symbol, hkept, hhidden, rfl⟩
      · exact Or.inr ⟨houtcome, by simpa using hchosen⟩
  | textObject name =>
    simp only [hide] at hmem ⊢
    cases element with
    | stackLevel level => simp at hmem
    | symbolComponent other => simpa using hmem
    | textComponent other =>
      simp only [textComponent_mem_hiddenElements] at hmem ⊢
      obtain ⟨object, hobject, component, hcomponent, hhidden, rfl⟩ := hmem
      obtain hkept | ⟨_, original, horiginal, _, rfl⟩ := mem_hideFirst hobject
      · exact Or.inl ⟨object, hkept, component, hcomponent, hhidden, rfl⟩
      · exact Or.inl ⟨original, horiginal, component, hcomponent, hhidden, rfl⟩
    | textObject other =>
      simp only [textObject_mem_hiddenElements] at hmem ⊢
      obtain ⟨object, hobject, hhidden, rfl⟩ := hmem
      obtain hkept | ⟨houtcome, original, _, hchosen, rfl⟩ := mem_hideFirst hobject
      · exact Or.inl ⟨object, hkept, hhidden, rfl⟩
      · exact Or.inr ⟨houtcome, by simpa using hchosen⟩

theorem shown_of_hiddenElements_eq_nil {content : Content α}
    (hvisible : content.hiddenElements = []) : content.shown = content := by
  have hnone : ∀ element, element ∉ content.hiddenElements := by simp [hvisible]
  have hcomponents : ∀ object ∈ content.textObjects,
      object.components.map TextComponent.shown = object.components := by
    intro object hobject
    refine (List.map_congr_left fun component hcomponent => ?_).trans (List.map_id _)
    have hflag := hnone (.textComponent component.name)
    rw [textComponent_mem_hiddenElements] at hflag
    have hfalse : component.hidden = false := by
      simpa using fun hhidden => hflag ⟨object, hobject, component, hcomponent, hhidden, rfl⟩
    simp [TextComponent.shown, ← hfalse]
  have hobjects : content.textObjects.map TextObject.shown = content.textObjects := by
    refine (List.map_congr_left fun object hobject => ?_).trans (List.map_id _)
    have hflag := hnone (.textObject object.name)
    rw [textObject_mem_hiddenElements] at hflag
    have hfalse : object.hidden = false := by
      simpa using fun hhidden => hflag ⟨object, hobject, hhidden, rfl⟩
    simp [TextObject.shown, hcomponents object hobject, ← hfalse]
  have hsymbols : content.symbols.map SymbolComponent.shown = content.symbols := by
    refine (List.map_congr_left fun symbol hsymbol => ?_).trans (List.map_id _)
    have hflag := hnone (.symbolComponent symbol.name)
    rw [symbolComponent_mem_hiddenElements] at hflag
    have hfalse : symbol.hidden = false := by
      simpa using fun hhidden => hflag ⟨symbol, hsymbol, hhidden, rfl⟩
    simp [SymbolComponent.shown, ← hfalse]
  rw [shown, hobjects, hsymbols]

end Content

/-! ### The hidden elements of a request -/

theorem Working.mem_insertLevel {level other : Nat} {levels : List Nat} :
    other ∈ Working.insertLevel level levels ↔ other = level ∨ other ∈ levels := by
  induction levels with
  | nil => simp [Working.insertLevel]
  | cons first rest ih =>
    rw [Working.insertLevel]
    split
    · simp
    · split
      · simp_all
      · simp [ih, or_left_comm]

namespace Request

/-- The request with every element to be seen. -/
def shown (request : Request α) : Request α :=
  { request with
      working := { request.working with hiddenLevels := [] }, content := request.content.shown }

/-- The request as it was declared, with what placing it has come to. -/
def declared (request : Request α) : Request α :=
  { request.shown with working := .ofStyle request.style }

theorem mem_hiddenElements {request : Request α} {element : Element} :
    element ∈ request.hiddenElements ↔ element ∈ request.content.hiddenElements ∨
      ∃ level ∈ request.working.hiddenLevels, .stackLevel level = element := by
  simp [hiddenElements]

@[simp]
theorem shown_restore (request : Request α) (element : Element) :
    (request.restore element).shown = request.shown := by
  cases element <;> simp [restore, shown]

@[simp]
theorem shown_hide (request : Request α) (element : Element) :
    (request.hide element).2.shown = request.shown := by
  cases element with
  | stackLevel level =>
    rw [hide]
    split
    · rfl
    · split <;> rfl
  | textComponent name | symbolComponent name | textObject name => simp [hide, shown]

@[simp]
theorem shown_foldl_restore (elements : List Element) (request : Request α) :
    (elements.foldl restore request).shown = request.shown := by
  induction elements generalizing request with
  | nil => rfl
  | cons element rest ih => rw [List.foldl_cons, ih, shown_restore]

theorem mem_hiddenElements_restore {request : Request α} {target element : Element} :
    element ∈ (request.restore target).hiddenElements ↔
      element ∈ request.hiddenElements ∧ element ≠ target := by
  simp only [mem_hiddenElements]
  cases target with
  | stackLevel level => cases element <;> simp [restore]
  | textComponent name | symbolComponent name | textObject name =>
    simp only [restore, Content.mem_hiddenElements_restore]
    cases element <;> simp

theorem mem_hiddenElements_foldl_restore {elements : List Element} {request : Request α}
    {element : Element} :
    element ∈ (elements.foldl restore request).hiddenElements ↔
      element ∈ request.hiddenElements ∧ element ∉ elements := by
  induction elements generalizing request with
  | nil => simp
  | cons first rest ih =>
    rw [List.foldl_cons, ih, mem_hiddenElements_restore, List.mem_cons, not_or, and_assoc]

theorem mem_hiddenElements_hide {request : Request α} {target element : Element}
    (hmem : element ∈ (request.hide target).2.hiddenElements) :
    element ∈ request.hiddenElements ∨
      ((request.hide target).1 = .hidden ∧ element = target) := by
  cases target with
  | stackLevel level =>
    rw [hide] at hmem ⊢
    split at hmem
    · exact Or.inl hmem
    · rename_i hlevel
      split at hmem
      · exact Or.inl hmem
      · rename_i hshown
        simp only [mem_hiddenElements, Working.mem_insertLevel] at hmem ⊢
        obtain hcontent | ⟨other, hother, rfl⟩ := hmem
        · exact Or.inl (Or.inl hcontent)
        · obtain rfl | hkept := hother
          · exact Or.inr ⟨by rw [if_neg hlevel, if_neg hshown], rfl⟩
          · exact Or.inl (Or.inr ⟨other, hkept, rfl⟩)
  | textComponent name | symbolComponent name | textObject name =>
    simp only [hide, mem_hiddenElements] at hmem ⊢
    obtain hcontent | hlevel := hmem
    · obtain hkept | hnew := Content.mem_hiddenElements_hide hcontent
      · exact Or.inl (Or.inl hkept)
      · exact Or.inr hnew
    · exact Or.inl (Or.inr hlevel)

theorem shown_of_hiddenElements_eq_nil {request : Request α}
    (hvisible : request.hiddenElements = []) : request.shown = request := by
  obtain ⟨hcontent, hlevels⟩ := List.append_eq_nil_iff.mp hvisible
  rw [shown, Content.shown_of_hiddenElements_eq_nil hcontent, ← List.map_eq_nil_iff.mp hlevels]

theorem hiddenElements_restoreAll (request : Request α) :
    request.restoreAll.hiddenElements = [] := by
  refine List.eq_nil_iff_forall_not_mem.mpr fun element hmem => ?_
  obtain ⟨hhidden, hkept⟩ := mem_hiddenElements_foldl_restore.mp hmem
  exact hkept hhidden

theorem restoreAll_eq_shown (request : Request α) : request.restoreAll = request.shown := by
  rw [← shown_of_hiddenElements_eq_nil (hiddenElements_restoreAll request), restoreAll,
    shown_foldl_restore]

/-- A reset request is the declared one, not placed yet. -/
theorem reset_eq (request : Request α) :
    request.reset = { request.declared with status := .unplaced, placement := none } := by
  rw [reset, restoreAll_eq_shown]
  rfl

theorem reset_of_declared_eq {left right : Request α} (hdeclared : left.declared = right.declared) :
    left.reset = right.reset := by
  rw [reset_eq, reset_eq, hdeclared]

@[simp]
theorem reset_settle (request : Request α) (status : Status) (placement : Option (Placement α)) :
    { request with status, placement }.reset = request.reset := by
  rw [reset_eq, reset_eq]
  rfl

theorem declared_eq_of_shown_eq {left right : Request α} (hshown : left.shown = right.shown) :
    left.declared = right.declared :=
  congrArg (fun request => { request with working := .ofStyle request.style }) hshown

end Request

/-! ### Hide attempts -/

namespace HideAttempt

@[simp]
theorem shown_hideAll (targets : List Element) (request : Request α) :
    (hideAll request targets).2.2.shown = request.shown := by
  induction targets generalizing request with
  | nil => rfl
  | cons target rest ih =>
    rw [hideAll]
    split
    · rfl
    · rename_i outcome changed _ hhide
      simp only
      rw [ih, ← Request.shown_hide request target, hhide]

/-- What is hidden after an attempt was hidden before it, or is noted as hidden by it. -/
theorem mem_hiddenElements_hideAll {targets : List Element} {request : Request α}
    {element : Element} (hmem : element ∈ (hideAll request targets).2.2.hiddenElements) :
    element ∈ request.hiddenElements ∨ element ∈ (hideAll request targets).2.1 := by
  induction targets generalizing request with
  | nil => exact Or.inl hmem
  | cons target rest ih =>
    rw [hideAll] at hmem ⊢
    split at hmem
    · exact Or.inl hmem
    · rename_i outcome changed hfound hhide
      obtain hchanged | hnewly := ih hmem
      · have hafter : element ∈ (request.hide target).2.hiddenElements := by rwa [hhide]
        obtain hkept | ⟨houtcome, rfl⟩ := Request.mem_hiddenElements_hide hafter
        · exact Or.inl hkept
        · rw [hhide] at houtcome
          exact Or.inr (by simp [show outcome = .hidden from houtcome])
      · refine Or.inr ?_
        simp only
        split
        · exact List.mem_cons_of_mem _ hnewly
        · exact hnewly

@[simp]
theorem shown_firstUsable (attempts : List HideAttempt) (request : Request α) :
    (firstUsable request attempts).2.2.shown = request.shown := by
  induction attempts generalizing request with
  | nil => rfl
  | cons attempt rest ih =>
    simp only [firstUsable]
    split
    · exact shown_hideAll attempt.targets request
    · rw [ih, Request.shown_foldl_restore, shown_hideAll]

/-- What is hidden after the attempts was hidden before them, or is noted in the state. -/
theorem mem_hiddenElements_firstUsable {attempts : List HideAttempt} {request : Request α}
    {element : Element} (hmem : element ∈ (firstUsable request attempts).2.2.hiddenElements) :
    element ∈ request.hiddenElements ∨
      element ∈ (firstUsable request attempts).2.1.hidden := by
  induction attempts generalizing request with
  | nil => exact Or.inl hmem
  | cons attempt rest ih =>
    by_cases husable : (hideAll request attempt.targets).1 &&
        (hideAll request attempt.targets).2.2.hasVisibleContent
    · simp only [firstUsable, husable, if_true] at hmem ⊢
      exact mem_hiddenElements_hideAll hmem
    · simp only [firstUsable, husable] at hmem ⊢
      obtain hrestored | hnoted := ih hmem
      · rw [Request.mem_hiddenElements_foldl_restore] at hrestored
        obtain hkept | hnewly := mem_hiddenElements_hideAll hrestored.1
        · exact Or.inl hkept
        · exact absurd hnewly hrestored.2
      · exact Or.inr hnoted

end HideAttempt

end LabelPlacement
