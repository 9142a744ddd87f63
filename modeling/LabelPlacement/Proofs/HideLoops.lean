import LabelPlacement.Proofs.Hiding
import LabelPlacement.Scalar.Binary64

/-!
# Hide loops

Hiding takes the first element of a name, showing takes all of them. Showing a name again therefore
undoes what hiding it did, but it also shows the later elements of the name, which may have been
hidden all along. `Request.IsHidden` is what hiding sees of a name: the flag of its first element.
What a hide loop has hidden by the time it ends was not hidden in this sense before it, and the
request that it leaves is the request it found with some such names shown.
-/

namespace LabelPlacement

deriving instance ReflBEq, LawfulBEq for Element

variable {α : Type}

/-! ### Flags under their names -/

section HideFirst

variable {ι κ : Type} {chosen isHidden : ι → Bool} {hide : ι → ι}

theorem hideFirst_of_ne_hidden {elements : List ι}
    (hkept : (hideFirst chosen isHidden hide elements).1 ≠ .hidden) :
    (hideFirst chosen isHidden hide elements).2 = elements := by
  induction elements with
  | nil => rfl
  | cons element rest ih =>
    rw [hideFirst] at hkept ⊢
    split at hkept
    · split at hkept
      · rename_i hchosen hhidden
        simp [hchosen, hhidden]
      · exact absurd rfl hkept
    · rename_i hchosen
      simp [hchosen, ih hkept]

theorem hideFirst_map {chosen' isHidden' : κ → Bool} {hide' : κ → κ} (view : ι → κ)
    (hchosen : ∀ element, chosen' (view element) = chosen element)
    (hhidden : ∀ element, isHidden' (view element) = isHidden element)
    (hhide : ∀ element, hide' (view element) = view (hide element)) (elements : List ι) :
    hideFirst chosen' isHidden' hide' (elements.map view) =
      ((hideFirst chosen isHidden hide elements).1,
        (hideFirst chosen isHidden hide elements).2.map view) := by
  induction elements with
  | nil => rfl
  | cons element rest ih =>
    rw [List.map_cons, hideFirst, hideFirst, hchosen, hhidden, hhide, ih]
    split
    · split <;> rfl
    · rfl

theorem hideFirst_append (left right : List ι) :
    hideFirst chosen isHidden hide (left ++ right) =
      if (hideFirst chosen isHidden hide left).1 = .missing then
        ((hideFirst chosen isHidden hide right).1,
          left ++ (hideFirst chosen isHidden hide right).2)
      else ((hideFirst chosen isHidden hide left).1,
        (hideFirst chosen isHidden hide left).2 ++ right) := by
  induction left with
  | nil => simp [hideFirst]
  | cons element rest ih =>
    rw [List.cons_append, hideFirst, hideFirst, ih]
    by_cases hchosen : chosen element = true
    · by_cases hhidden : isHidden element = true <;> simp [hchosen, hhidden]
    · by_cases hmissing : (hideFirst chosen isHidden hide rest).1 = .missing <;>
        simp [hchosen, hmissing]

theorem map_map_comm {first second : ι → ι}
    (hcomm : ∀ element, second (first element) = first (second element)) (elements : List ι) :
    (elements.map first).map second = (elements.map second).map first := by
  rw [List.map_map, List.map_map]
  exact List.map_congr_left fun element _ => hcomm element

end HideFirst

/-- The names of elements of one kind with their flags. -/
abbrev Flags := List (String × Bool)

namespace Flags

/-- Sets the first flag of a name. -/
def hide (name : String) (flags : Flags) : HideOutcome × Flags :=
  hideFirst (·.1 == name) (·.2) (fun flag => (flag.1, true)) flags

/-- Clears the flags of a name. -/
def clear (name : String) (flags : Flags) : Flags :=
  flags.map fun flag => if flag.1 == name then (flag.1, false) else flag

theorem lookup_cons (name : String) (flag : String × Bool) (rest : Flags) :
    (flag :: rest).lookup name = if flag.1 = name then some flag.2 else rest.lookup name := by
  obtain ⟨first, set⟩ := flag
  rw [List.lookup_cons]
  by_cases hname : first = name
  · simp [hname]
  · rw [beq_false_of_ne (Ne.symm hname), if_neg hname]

theorem hide_cons (name : String) (flag : String × Bool) (rest : Flags) :
    Flags.hide name (flag :: rest) =
      if flag.1 = name then
        (if flag.2 then .alreadyHidden else .hidden, (flag.1, true) :: rest)
      else ((Flags.hide name rest).1, flag :: (Flags.hide name rest).2) := by
  obtain ⟨first, set⟩ := flag
  rw [hide, hideFirst]
  by_cases hname : first = name
  · cases set <;> simp [hname]
  · simp [hname, hide]

theorem hide_of_lookup {name : String} {flags : Flags} (hset : flags.lookup name = some true) :
    (flags.hide name).1 = .alreadyHidden := by
  induction flags with
  | nil => simp at hset
  | cons flag rest ih =>
    rw [lookup_cons] at hset
    rw [hide_cons]
    split at hset <;> simp_all

theorem lookup_hide {name other : String} {flags : Flags} (hset : flags.lookup other = some true) :
    (flags.hide name).2.lookup other = some true := by
  induction flags with
  | nil => simp at hset
  | cons flag rest ih =>
    rw [lookup_cons] at hset
    rw [hide_cons]
    split <;> rw [lookup_cons] <;> split at hset <;> simp_all

theorem lookup_clear {name other : String} (hother : other ≠ name) (flags : Flags) :
    (flags.clear name).lookup other = flags.lookup other := by
  induction flags with
  | nil => rfl
  | cons flag rest ih =>
    rw [clear, List.map_cons, lookup_cons, lookup_cons, ← clear, ih]
    by_cases hname : flag.1 = name <;> simp [hname, Ne.symm hother]

end Flags

/-! ### The flags of a content -/

/-- The flags of the components of a text object. -/
def TextObject.componentFlags (object : TextObject) : Flags :=
  object.components.map fun component => (component.name, component.hidden)

theorem TextObject.componentFlags_hideComponentIn (name : String) (objects : List TextObject) :
    Flags.hide name (objects.flatMap componentFlags) = ((hideComponentIn name objects).1,
      (hideComponentIn name objects).2.flatMap componentFlags) := by
  induction objects with
  | nil => rfl
  | cons object rest ih =>
    have hobject : Flags.hide name object.componentFlags =
        ((hideComponent name object.components).1,
          (hideComponent name object.components).2.map fun component =>
            (component.name, component.hidden)) :=
      hideFirst_map _ (fun _ => by rfl) (fun _ => by rfl) (fun _ => by rfl) object.components
    rw [Flags.hide] at hobject ih ⊢
    rw [List.flatMap_cons, hideFirst_append, hobject, ih, hideComponentIn]
    cases hhide : hideComponent name object.components with
    | mk outcome components => cases outcome <;> simp [componentFlags]

theorem TextObject.hideComponentIn_of_ne_hidden {name : String} {objects : List TextObject}
    (hkept : (hideComponentIn name objects).1 ≠ .hidden) :
    (hideComponentIn name objects).2 = objects := by
  induction objects with
  | nil => rfl
  | cons object rest ih =>
    have hobject : (hideComponent name object.components).1 ≠ .hidden →
        (hideComponent name object.components).2 = object.components := hideFirst_of_ne_hidden
    rw [hideComponentIn] at hkept ⊢
    cases hhide : hideComponent name object.components with
    | mk outcome components =>
      rw [hhide] at hkept hobject
      cases outcome with
      | missing => simpa using ih hkept
      | alreadyHidden => simp [show components = object.components from hobject (by simp)]
      | hidden => exact absurd rfl hkept

namespace Content

/-- The flags of the text components. -/
def componentFlags (content : Content α) : Flags :=
  content.textObjects.flatMap TextObject.componentFlags

/-- The flags of the symbols. -/
def symbolFlags (content : Content α) : Flags :=
  content.symbols.map fun symbol => (symbol.name, symbol.hidden)

/-- The flags of the text objects. -/
def objectFlags (content : Content α) : Flags :=
  content.textObjects.map fun object => (object.name, object.hidden)

/-- The first element of the name is there and hidden. -/
def IsHidden (content : Content α) : Element → Prop
  | .textComponent name => content.componentFlags.lookup name = some true
  | .symbolComponent name => content.symbolFlags.lookup name = some true
  | .textObject name => content.objectFlags.lookup name = some true
  | .stackLevel _ => False

instance (content : Content α) : (element : Element) → Decidable (content.IsHidden element)
  | .textComponent name => decEq (content.componentFlags.lookup name) (some true)
  | .symbolComponent name => decEq (content.symbolFlags.lookup name) (some true)
  | .textObject name => decEq (content.objectFlags.lookup name) (some true)
  | .stackLevel _ => instDecidableFalse

/-! What hiding makes of the flags of the kind it is about, and of the other ones. -/

theorem componentFlags_hide (content : Content α) (name : String) :
    content.componentFlags.hide name = ((content.hide (.textComponent name)).1,
      (content.hide (.textComponent name)).2.componentFlags) :=
  TextObject.componentFlags_hideComponentIn name content.textObjects

theorem symbolFlags_hide (content : Content α) (name : String) :
    content.symbolFlags.hide name = ((content.hide (.symbolComponent name)).1,
      (content.hide (.symbolComponent name)).2.symbolFlags) :=
  hideFirst_map _ (fun _ => by rfl) (fun _ => by rfl) (fun _ => by rfl) content.symbols

theorem objectFlags_hide (content : Content α) (name : String) :
    content.objectFlags.hide name = ((content.hide (.textObject name)).1,
      (content.hide (.textObject name)).2.objectFlags) :=
  hideFirst_map _ (fun _ => by rfl) (fun _ => by rfl) (fun _ => by rfl) content.textObjects

theorem componentFlags_hide_textObject (content : Content α) (name : String) :
    (content.hide (.textObject name)).2.componentFlags = content.componentFlags := by
  simp only [componentFlags, List.flatMap_def]
  exact congrArg List.flatten (map_hideFirst _ (fun _ _ => by rfl) content.textObjects)

theorem objectFlags_hide_textComponent (content : Content α) (name : String) :
    (content.hide (.textComponent name)).2.objectFlags = content.objectFlags :=
  TextObject.map_hideComponentIn _ (fun _ => by rfl) content.textObjects

theorem hide_of_isHidden {content : Content α} {element : Element}
    (hhidden : content.IsHidden element) : (content.hide element).1 = .alreadyHidden := by
  cases element with
  | stackLevel level => exact hhidden.elim
  | textComponent name =>
    rw [← Flags.hide_of_lookup hhidden, componentFlags_hide]
  | symbolComponent name =>
    rw [← Flags.hide_of_lookup hhidden, symbolFlags_hide]
  | textObject name =>
    rw [← Flags.hide_of_lookup hhidden, objectFlags_hide]

theorem IsHidden.hide {content : Content α} {element : Element}
    (hhidden : content.IsHidden element) (target : Element) :
    (content.hide target).2.IsHidden element := by
  cases target with
  | stackLevel level => exact hhidden
  | textComponent name =>
    cases element with
    | textComponent other =>
      have hkept : (content.componentFlags.hide name).2.lookup other = some true :=
        Flags.lookup_hide hhidden
      rwa [componentFlags_hide] at hkept
    | textObject other => rwa [IsHidden, objectFlags_hide_textComponent]
    | symbolComponent other | stackLevel other => exact hhidden
  | symbolComponent name =>
    cases element with
    | symbolComponent other =>
      have hkept : (content.symbolFlags.hide name).2.lookup other = some true :=
        Flags.lookup_hide hhidden
      rwa [symbolFlags_hide] at hkept
    | textComponent other | textObject other | stackLevel other => exact hhidden
  | textObject name =>
    cases element with
    | textObject other =>
      have hkept : (content.objectFlags.hide name).2.lookup other = some true :=
        Flags.lookup_hide hhidden
      rwa [objectFlags_hide] at hkept
    | textComponent other => rwa [IsHidden, componentFlags_hide_textObject]
    | symbolComponent other | stackLevel other => exact hhidden

/-! The same for showing. -/

theorem componentFlags_restore (content : Content α) (name : String) :
    (content.restore (.textComponent name)).componentFlags = content.componentFlags.clear name := by
  simp only [componentFlags, restore, Flags.clear, List.map_flatMap, List.flatMap_map]
  congr 1
  funext object
  simp only [TextObject.componentFlags, TextObject.showComponent, List.map_map]
  refine List.map_congr_left fun component _ => ?_
  by_cases hname : component.name = name <;> simp [hname]

theorem symbolFlags_restore (content : Content α) (name : String) :
    (content.restore (.symbolComponent name)).symbolFlags = content.symbolFlags.clear name := by
  simp only [symbolFlags, restore, Flags.clear, List.map_map]
  refine List.map_congr_left fun symbol _ => ?_
  by_cases hname : symbol.name = name <;> simp [hname]

theorem objectFlags_restore (content : Content α) (name : String) :
    (content.restore (.textObject name)).objectFlags = content.objectFlags.clear name := by
  simp only [objectFlags, restore, Flags.clear, List.map_map]
  refine List.map_congr_left fun object _ => ?_
  by_cases hname : object.name = name <;> simp [hname]

theorem componentFlags_restore_textObject (content : Content α) (name : String) :
    (content.restore (.textObject name)).componentFlags = content.componentFlags := by
  simp only [componentFlags, restore, List.flatMap_map]
  congr 1
  funext object
  split <;> rfl

theorem objectFlags_restore_textComponent (content : Content α) (name : String) :
    (content.restore (.textComponent name)).objectFlags = content.objectFlags := by
  simp only [objectFlags, restore, List.map_map]
  rfl

theorem IsHidden.restore {content : Content α} {element target : Element}
    (hhidden : content.IsHidden element) (hother : element ≠ target) :
    (content.restore target).IsHidden element := by
  cases target with
  | stackLevel level => exact hhidden
  | textComponent name =>
    cases element with
    | textComponent other =>
      rw [IsHidden, componentFlags_restore, Flags.lookup_clear (by simpa using hother)]
      exact hhidden
    | textObject other => rwa [IsHidden, objectFlags_restore_textComponent]
    | symbolComponent other | stackLevel other => exact hhidden
  | symbolComponent name =>
    cases element with
    | symbolComponent other =>
      rw [IsHidden, symbolFlags_restore, Flags.lookup_clear (by simpa using hother)]
      exact hhidden
    | textComponent other | textObject other | stackLevel other => exact hhidden
  | textObject name =>
    cases element with
    | textObject other =>
      rw [IsHidden, objectFlags_restore, Flags.lookup_clear (by simpa using hother)]
      exact hhidden
    | textComponent other => rwa [IsHidden, componentFlags_restore_textObject]
    | symbolComponent other | stackLevel other => exact hhidden

/-! ### Showing what was hidden -/

theorem hide_of_ne_hidden {content : Content α} {element : Element}
    (hkept : (content.hide element).1 ≠ .hidden) : (content.hide element).2 = content := by
  cases element with
  | stackLevel level => rfl
  | textComponent name =>
    exact congrArg (Content.mk · content.symbols) (TextObject.hideComponentIn_of_ne_hidden hkept)
  | symbolComponent name =>
    exact congrArg (Content.mk content.textObjects) (hideFirst_of_ne_hidden hkept)
  | textObject name =>
    exact congrArg (Content.mk · content.symbols) (hideFirst_of_ne_hidden hkept)

theorem restore_hide (content : Content α) (element : Element) :
    (content.hide element).2.restore element = content.restore element := by
  cases element with
  | stackLevel level => rfl
  | textComponent name =>
    refine congrArg (Content.mk · content.symbols)
      (TextObject.map_hideComponentIn _ (fun object => ?_) content.textObjects)
    simp only [TextObject.showComponent, TextObject.mk.injEq, and_true, true_and]
    exact map_hideFirst _ (fun component hchosen => by simp_all) object.components
  | symbolComponent name =>
    exact congrArg (Content.mk content.textObjects)
      (map_hideFirst _ (fun symbol hchosen => by simp_all) content.symbols)
  | textObject name =>
    exact congrArg (Content.mk · content.symbols)
      (map_hideFirst _ (fun object hchosen => by simp_all) content.textObjects)

/-- The order in which names are shown does not matter. -/
theorem restore_comm (content : Content α) (element other : Element) :
    (content.restore element).restore other = (content.restore other).restore element := by
  cases element with
  | stackLevel level => rfl
  | textComponent first =>
    cases other with
    | textComponent second =>
      refine congrArg (Content.mk · content.symbols)
        (map_map_comm (fun object => ?_) content.textObjects)
      refine congrArg (TextObject.mk object.name · object.hidden)
        (map_map_comm (fun component => ?_) object.components)
      grind
    | textObject second =>
      refine congrArg (Content.mk · content.symbols)
        (map_map_comm (fun object => ?_) content.textObjects)
      grind [TextObject.showComponent]
    | symbolComponent second | stackLevel level => rfl
  | symbolComponent first =>
    cases other with
    | symbolComponent second =>
      refine congrArg (Content.mk content.textObjects)
        (map_map_comm (fun symbol => ?_) content.symbols)
      grind
    | textComponent second | textObject second | stackLevel level => rfl
  | textObject first =>
    cases other with
    | textObject second =>
      refine congrArg (Content.mk · content.symbols)
        (map_map_comm (fun object => ?_) content.textObjects)
      grind
    | textComponent second =>
      refine congrArg (Content.mk · content.symbols)
        (map_map_comm (fun object => ?_) content.textObjects)
      grind [TextObject.showComponent]
    | symbolComponent second | stackLevel level => rfl

/-- Nothing changes where nothing of the name was hidden. -/
theorem restore_of_notMem {content : Content α} {element : Element}
    (hvisible : element ∉ content.hiddenElements) : content.restore element = content := by
  cases element with
  | stackLevel level => rfl
  | textComponent name =>
    rw [textComponent_mem_hiddenElements] at hvisible
    refine congrArg (Content.mk · content.symbols)
      ((List.map_congr_left fun object hobject => ?_).trans (List.map_id _))
    have hcomponents : object.components.map (fun component =>
        if component.name == name then { component with hidden := false } else component) =
          object.components := by
      refine (List.map_congr_left fun component hcomponent => ?_).trans (List.map_id _)
      have hflag : component.name = name → component.hidden = false := by grind
      cases component
      simp_all
    rw [TextObject.showComponent, hcomponents, id]
  | symbolComponent name =>
    rw [symbolComponent_mem_hiddenElements] at hvisible
    refine congrArg (Content.mk content.textObjects)
      ((List.map_congr_left fun symbol hsymbol => ?_).trans (List.map_id _))
    have hflag : symbol.name = name → symbol.hidden = false := by grind
    cases symbol
    simp_all
  | textObject name =>
    rw [textObject_mem_hiddenElements] at hvisible
    refine congrArg (Content.mk · content.symbols)
      ((List.map_congr_left fun object hobject => ?_).trans (List.map_id _))
    have hflag : object.name = name → object.hidden = false := by grind
    cases object
    simp_all

end Content

/-! ### The same for a request -/

/-- An element of the content is anything but a stack level. -/
theorem Element.level_or_content (element : Element) :
    (∃ level, element = .stackLevel level) ∨ ∀ level, element ≠ .stackLevel level := by
  cases element with
  | stackLevel level => exact Or.inl ⟨level, rfl⟩
  | textComponent name | symbolComponent name | textObject name => exact Or.inr nofun

namespace Working

theorem filter_insertLevel {level : Nat} {levels : List Nat} (hnew : level ∉ levels) :
    (insertLevel level levels).filter (· != level) = levels.filter (· != level) := by
  induction levels with
  | nil => simp [insertLevel]
  | cons first rest ih =>
    rw [List.mem_cons, not_or] at hnew
    rw [insertLevel, if_neg hnew.1]
    split
    · simp
    · rw [List.filter_cons, List.filter_cons, ih hnew.2]

end Working

namespace Request

/-- The element is hidden as hiding sees it: the first element of the name, or a stack level that
is left out. -/
def IsHidden (request : Request α) (element : Element) : Prop :=
  request.content.IsHidden element ∨
    ∃ level ∈ request.working.hiddenLevels, .stackLevel level = element

instance (request : Request α) (element : Element) : Decidable (request.IsHidden element) :=
  inferInstanceAs (Decidable (_ ∨ _))

theorem hide_content (request : Request α) {element : Element}
    (hkind : ∀ level, element ≠ .stackLevel level) :
    request.hide element = ((request.content.hide element).1,
      { request with content := (request.content.hide element).2 }) := by
  cases element with
  | stackLevel level => exact absurd rfl (hkind level)
  | textComponent name | symbolComponent name | textObject name => rfl

theorem restore_content (request : Request α) {element : Element}
    (hkind : ∀ level, element ≠ .stackLevel level) :
    request.restore element = { request with content := request.content.restore element } := by
  cases element with
  | stackLevel level => exact absurd rfl (hkind level)
  | textComponent name | symbolComponent name | textObject name => rfl

theorem hide_ne_hidden_of_isHidden {request : Request α} {element : Element}
    (hhidden : request.IsHidden element) : (request.hide element).1 ≠ .hidden := by
  obtain hcontent | ⟨level, hlevel, rfl⟩ := hhidden
  · have hkind : ∀ level, element ≠ .stackLevel level := by
      rintro level rfl
      exact hcontent
    simp [hide_content request hkind, Content.hide_of_isHidden hcontent]
  · rw [hide, List.contains_iff_mem.mpr hlevel]
    split <;> simp

theorem IsHidden.hide {request : Request α} {element : Element}
    (hhidden : request.IsHidden element) (target : Element) :
    (request.hide target).2.IsHidden element := by
  obtain ⟨level, rfl⟩ | hkind := target.level_or_content
  · rw [Request.hide]
    split
    · exact hhidden
    · split
      · exact hhidden
      · refine hhidden.imp_right ?_
        rintro ⟨other, hother, heq⟩
        exact ⟨other, Working.mem_insertLevel.mpr (Or.inr hother), heq⟩
  · rw [hide_content request hkind]
    exact hhidden.imp_left (·.hide target)

theorem IsHidden.restore {request : Request α} {element target : Element}
    (hhidden : request.IsHidden element) (hother : element ≠ target) :
    (request.restore target).IsHidden element := by
  obtain ⟨level, rfl⟩ | hkind := target.level_or_content
  · refine hhidden.imp_right ?_
    rintro ⟨other, hlevel, heq⟩
    refine ⟨other, List.mem_filter.mpr ⟨hlevel, ?_⟩, heq⟩
    rw [bne_iff_ne]
    rintro rfl
    exact hother heq.symm
  · rw [restore_content request hkind]
    exact hhidden.imp_left (·.restore hother)

theorem IsHidden.foldl_restore {elements : List Element} {request : Request α} {element : Element}
    (hhidden : request.IsHidden element) (hother : element ∉ elements) :
    (elements.foldl Request.restore request).IsHidden element := by
  induction elements generalizing request with
  | nil => exact hhidden
  | cons first rest ih =>
    rw [List.mem_cons, not_or] at hother
    exact ih (hhidden.restore hother.1) hother.2

theorem hide_of_ne_hidden {request : Request α} {element : Element}
    (hkept : (request.hide element).1 ≠ .hidden) : (request.hide element).2 = request := by
  obtain ⟨level, rfl⟩ | hkind := element.level_or_content
  · rw [hide] at hkept ⊢
    split at hkept
    · rename_i hmissing
      rw [if_pos hmissing]
    · rename_i hfound
      rw [if_neg hfound]
      split at hkept
      · rename_i hlevel
        rw [if_pos hlevel]
      · exact absurd rfl hkept
  · rw [hide_content request hkind] at hkept ⊢
    rw [Content.hide_of_ne_hidden hkept]

/-- Showing a name undoes what hiding it did. -/
theorem restore_hide (request : Request α) (element : Element) :
    (request.hide element).2.restore element = request.restore element := by
  obtain ⟨level, rfl⟩ | hkind := element.level_or_content
  · rw [hide]
    split
    · rfl
    · split
      · rfl
      · rename_i hlevel
        rw [List.contains_iff_mem] at hlevel
        simp only [restore, Working.filter_insertLevel hlevel]
  · rw [hide_content request hkind, restore_content _ hkind, restore_content _ hkind,
      Content.restore_hide]

theorem restore_comm (request : Request α) (element other : Element) :
    (request.restore element).restore other = (request.restore other).restore element := by
  obtain ⟨level, rfl⟩ | hkind := element.level_or_content
  · obtain ⟨second, rfl⟩ | hother := other.level_or_content
    · simp [restore, Bool.and_comm]
    · rw [restore_content _ hother, restore_content _ hother]
      rfl
  · obtain ⟨second, rfl⟩ | hother := other.level_or_content
    · rw [restore_content _ hkind, restore_content _ hkind]
      rfl
    · simp only [restore_content _ hkind, restore_content _ hother, Content.restore_comm]

theorem foldl_restore_restore (elements : List Element) (request : Request α) (element : Element) :
    elements.foldl restore (request.restore element) =
      (elements.foldl restore request).restore element := by
  induction elements generalizing request with
  | nil => rfl
  | cons first rest ih => rw [List.foldl_cons, List.foldl_cons, restore_comm, ih]

theorem restore_of_notMem {request : Request α} {element : Element}
    (hvisible : element ∉ request.hiddenElements) : request.restore element = request := by
  rw [mem_hiddenElements, not_or] at hvisible
  obtain ⟨level, rfl⟩ | hkind := element.level_or_content
  · have hlevels : request.working.hiddenLevels.filter (· != level) =
        request.working.hiddenLevels := by
      refine List.filter_eq_self.mpr fun other hother => ?_
      simpa using fun heq => hvisible.2 ⟨other, hother, by rw [heq]⟩
    rw [restore, hlevels]
  · rw [restore_content _ hkind, Content.restore_of_notMem hvisible.1]

theorem foldl_restore_of_notMem {elements : List Element} {request : Request α}
    (hvisible : ∀ element ∈ elements, element ∉ request.hiddenElements) :
    elements.foldl restore request = request := by
  induction elements with
  | nil => rfl
  | cons first rest ih =>
    rw [List.foldl_cons, restore_of_notMem (hvisible first List.mem_cons_self)]
    exact ih fun element hmem => hvisible element (List.mem_cons_of_mem _ hmem)

/-- Nothing has changed but that names are shown, each of them a target of one of the attempts that
was not hidden before. -/
def RestoredBy (attempts : List HideAttempt) (before after : Request α) : Prop :=
  ∃ elements : List Element,
    (∀ element ∈ elements,
      (∃ attempt ∈ attempts, element ∈ attempt.targets) ∧ ¬before.IsHidden element) ∧
    after = elements.foldl restore before

namespace RestoredBy

variable {attempts more : List HideAttempt} {before middle after : Request α}

theorem refl (attempts : List HideAttempt) (request : Request α) :
    request.RestoredBy attempts request :=
  ⟨[], by simp, rfl⟩

theorem mono (hrestored : before.RestoredBy attempts after) (hmore : attempts ⊆ more) :
    before.RestoredBy more after := by
  obtain ⟨elements, helements, hafter⟩ := hrestored
  refine ⟨elements, fun element hmem => ?_, hafter⟩
  obtain ⟨⟨attempt, hattempt, htarget⟩, hvisible⟩ := helements element hmem
  exact ⟨⟨attempt, hmore hattempt, htarget⟩, hvisible⟩

theorem trans (hfirst : before.RestoredBy attempts middle)
    (hsecond : middle.RestoredBy attempts after) : before.RestoredBy attempts after := by
  obtain ⟨first, hfirst, rfl⟩ := hfirst
  obtain ⟨second, hsecond, rfl⟩ := hsecond
  refine ⟨first ++ second, fun element hmem => ?_, List.foldl_append.symm⟩
  by_cases hin : element ∈ first
  · exact hfirst element hin
  · have hlater := hsecond element ((List.mem_append.mp hmem).resolve_left hin)
    -- Had it been hidden at first, showing the other names would have left it hidden.
    exact ⟨hlater.1, fun hhidden => hlater.2 (hhidden.foldl_restore hin)⟩

/-- Where every hidden target is hidden at the first of its name, nothing has changed at all. -/
theorem eq_of_isHidden (hrestored : before.RestoredBy attempts after)
    (hfirst : ∀ attempt ∈ attempts, ∀ element ∈ attempt.targets,
      element ∈ before.hiddenElements → before.IsHidden element) : after = before := by
  obtain ⟨elements, helements, rfl⟩ := hrestored
  refine foldl_restore_of_notMem fun element hmem hhidden => ?_
  obtain ⟨⟨attempt, hattempt, htarget⟩, hvisible⟩ := helements element hmem
  exact hvisible (hfirst attempt hattempt element htarget hhidden)

end RestoredBy

end Request

/-! ### Attempts -/

namespace HideAttempt

/-- What is noted as hidden is a target and was not hidden before. -/
theorem noted_hideAll {targets : List Element} {request : Request α} {element : Element}
    (hnoted : element ∈ (hideAll request targets).2.1) :
    element ∈ targets ∧ ¬request.IsHidden element := by
  induction targets generalizing request with
  | nil => simp [hideAll] at hnoted
  | cons target rest ih =>
    rw [hideAll] at hnoted
    split at hnoted
    · simp at hnoted
    · rename_i outcome changed _ hhide
      -- What is hidden before an element is hidden stays hidden, so nothing hidden before the
      -- attempt is noted late in it.
      have hrest (hin : element ∈ (hideAll changed rest).2.1) :
          element ∈ target :: rest ∧ ¬request.IsHidden element := by
        refine ⟨List.mem_cons_of_mem _ (ih hin).1, fun hhidden => (ih hin).2 ?_⟩
        simpa [hhide] using hhidden.hide target
      simp only at hnoted
      split at hnoted
      · rename_i houtcome
        obtain rfl | hin := List.mem_cons.mp hnoted
        · refine ⟨List.mem_cons_self, fun hhidden => ?_⟩
          exact Request.hide_ne_hidden_of_isHidden hhidden (by rw [hhide]; exact houtcome)
        · exact hrest hin
      · exact hrest hnoted

/-- Showing what is noted as hidden undoes the attempt, complete or not. -/
theorem foldl_restore_hideAll (targets : List Element) (request : Request α) :
    (hideAll request targets).2.1.foldl Request.restore (hideAll request targets).2.2 =
      (hideAll request targets).2.1.foldl Request.restore request := by
  induction targets generalizing request with
  | nil => rfl
  | cons target rest ih =>
    rw [hideAll]
    split
    · rfl
    · rename_i outcome changed _ hhide
      simp only
      split
      · -- The target is shown before the others, and the induction is about the others: showing it
        -- is moved behind them, and back.
        have hchanged : changed.restore target = request.restore target := by
          simpa [hhide] using request.restore_hide target
        rw [List.foldl_cons, List.foldl_cons, Request.foldl_restore_restore, ih,
          ← Request.foldl_restore_restore, hchanged]
      · rename_i houtcome
        have hchanged : (request.hide target).2 = request :=
          Request.hide_of_ne_hidden (by rw [hhide]; exact houtcome)
        rw [hhide] at hchanged
        rw [ih, show changed = request from hchanged]

theorem restoredBy_hideAll (attempt : HideAttempt) (request : Request α) :
    request.RestoredBy [attempt]
      ((hideAll request attempt.targets).2.1.foldl Request.restore
        (hideAll request attempt.targets).2.2) :=
  ⟨_, fun _ hnoted => ⟨⟨attempt, List.mem_singleton_self _, (noted_hideAll hnoted).1⟩,
    (noted_hideAll hnoted).2⟩, foldl_restore_hideAll attempt.targets request⟩

theorem restoredBy_firstUsable (attempts : List HideAttempt) (request : Request α) :
    request.RestoredBy attempts ((firstUsable request attempts).2.1.hidden.foldl Request.restore
      (firstUsable request attempts).2.2) := by
  induction attempts generalizing request with
  | nil => exact .refl [] request
  | cons attempt rest ih =>
    have hattempt := (restoredBy_hideAll attempt request).mono
      (List.cons_subset_cons attempt (List.nil_subset rest))
    simp only [firstUsable]
    split
    · exact hattempt
    -- An attempt that falls through is undone before the next one begins.
    · exact hattempt.trans ((ih _).mono (List.subset_cons_self attempt rest))

theorem pending_firstUsable (attempts : List HideAttempt) (request : Request α) :
    (firstUsable request attempts).2.1.pending ⊆ attempts := by
  induction attempts generalizing request with
  | nil => exact List.nil_subset []
  | cons attempt rest ih =>
    simp only [firstUsable]
    split
    · exact List.subset_cons_self attempt rest
    · exact List.Subset.trans (ih _) (List.subset_cons_self attempt rest)

end HideAttempt

/-! ### Loops -/

namespace LoopKind

variable [Scalar α]

/-- A loop that has begun and been re-entered some times, with nothing done in its rounds. -/
def reentered (kind : LoopKind α) (run : Run α) : Nat → kind.State × Run α
  | 0 => (kind.begin run, run)
  | times + 1 =>
    let next := kind.reenter (kind.reentered run times).1 (kind.reentered run times).2
    (next.state, next.run)

/-- The attempts not yet made are attempts of the loop, only the request has changed, and showing
what the loop has noted leads to a request with some targets shown. -/
theorem reentered_hide (attempts : List HideAttempt) (run : Run α) (times : Nat) :
    let entered : HideState × Run α := (LoopKind.hide attempts).reentered run times
    entered.1.pending ⊆ attempts ∧ { entered.2 with request := run.request } = run ∧
      run.request.RestoredBy attempts
        (entered.1.hidden.foldl Request.restore entered.2.request) := by
  induction times with
  | zero => exact ⟨List.Subset.refl attempts, rfl, .refl attempts run.request⟩
  | succ times ih =>
    obtain ⟨hpending, hrun, hrestored⟩ := ih
    exact ⟨List.Subset.trans (HideAttempt.pending_firstUsable _ _) hpending, hrun,
      hrestored.trans ((HideAttempt.restoredBy_firstUsable _ _).mono hpending)⟩

/-- A hide loop in whose rounds nothing is done changes nothing but that it shows targets of its
attempts that were not hidden when it began, all elements of their names included. So it changes
nothing at all where the targets that are hidden are hidden at the first of their name. -/
theorem finish_reentered_hide (attempts : List HideAttempt) (run : Run α) (times : Nat) :
    let entered := (LoopKind.hide attempts).reentered run times
    let after := (LoopKind.hide attempts).finish entered.1 entered.2
    (∃ request, run.request.RestoredBy attempts request ∧ after = { run with request }) ∧
      ((∀ attempt ∈ attempts, ∀ element ∈ attempt.targets,
        element ∈ run.request.hiddenElements → run.request.IsHidden element) → after = run) := by
  intro entered after
  obtain ⟨_, hrun, hrestored⟩ := reentered_hide attempts run times
  have hafter : after = { run with request := after.request } :=
    congrArg (fun entered : Run α => { entered with request := after.request }) hrun
  refine ⟨⟨after.request, hrestored, hafter⟩, fun hfirst => ?_⟩
  rw [hafter, show after.request = run.request from hrestored.eq_of_isHidden hfirst]

/-- A first component that is hidden, and a second one of its name that is not, are both left as
they were. -/
theorem first_hidden_component_stays_hidden :
    let request : Request Float :=
      .create 1 1 "town" (.point ⟨0, 0⟩)
        ⟨[⟨"main", [⟨"a", "Ab", true⟩, ⟨"a", "Cd", false⟩, ⟨"b", "Ef", false⟩], false⟩], []⟩
        ⟨10, ⟨1, 1⟩⟩
    let attempts : List HideAttempt :=
      [⟨[⟨.textComponent, [.textComponent "a", .textComponent "b"]⟩]⟩,
        ⟨[⟨.stackLevel, [.stackLevel 1]⟩]⟩]
    let run := Run.start (.empty .standard) request
    let entered := (LoopKind.hide attempts).reentered run
    (entered 1).2.request.hiddenElements = [.textComponent "a", .textComponent "b"] ∧
      (∀ attempt ∈ attempts, ∀ element ∈ attempt.targets,
        element ∈ run.request.hiddenElements → run.request.IsHidden element) ∧
      (LoopKind.hide attempts).finish (entered 1).1 (entered 1).2 = run ∧
      (LoopKind.hide attempts).finish (entered 2).1 (entered 2).2 = run := by
  intro request attempts run entered
  have hfirst : ∀ attempt ∈ attempts, ∀ element ∈ attempt.targets,
      element ∈ run.request.hiddenElements → run.request.IsHidden element := by
    decide +kernel
  exact ⟨by decide +kernel, hfirst, (finish_reentered_hide attempts run 1).2 hfirst,
    (finish_reentered_hide attempts run 2).2 hfirst⟩

/-- A first component that is to be seen is hidden and shown again, and with it the second one of
its name, which was hidden before. -/
theorem second_hidden_component_is_shown :
    let request : Request Float :=
      .create 1 1 "town" (.point ⟨0, 0⟩)
        ⟨[⟨"main", [⟨"a", "Ab", false⟩, ⟨"a", "Cd", true⟩, ⟨"b", "Ef", false⟩], false⟩], []⟩
        ⟨10, ⟨1, 1⟩⟩
    let attempts : List HideAttempt := [⟨[⟨.textComponent, [.textComponent "a"]⟩]⟩]
    let run := Run.start (.empty .standard) request
    let entered := (LoopKind.hide attempts).reentered run 2
    run.request.hiddenElements = [.textComponent "a"] ∧
      ((LoopKind.hide attempts).finish entered.1 entered.2).request.hiddenElements = [] := by
  decide +kernel

end LoopKind

end LabelPlacement
