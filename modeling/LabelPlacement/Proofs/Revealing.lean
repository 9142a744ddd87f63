import Mathlib.Data.List.Forall2
import LabelPlacement.Proofs.Hiding

/-!
# What is revealed

Hiding and restoring, element by element: `Request.RevealsBut` says that nothing is hidden
afterwards that was not hidden before, a list of noted elements aside. Names do not say as much,
since several elements may share one and differ in their flags. An attempt hides no more than it
notes, and restoring all that it noted leaves nothing hidden that was not hidden before
(`Request.RevealsBut.restore_hideAll`).
-/

namespace LabelPlacement

variable {α : Type}

/-! ### Hidden but for what is noted -/

/-- A flag, by which an element is hidden, is set at most where it was set before or where the
element is noted. -/
def FlagBut (noted : List Element) (element : Element) (before after : Bool) : Prop :=
  after = true → before = true ∨ element ∈ noted

structure TextComponent.RevealsBut (noted : List Element) (before after : TextComponent) :
    Prop where
  name : after.name = before.name
  text : after.text = before.text
  hidden : FlagBut noted (.textComponent before.name) before.hidden after.hidden

structure TextObject.RevealsBut (noted : List Element) (before after : TextObject) : Prop where
  name : after.name = before.name
  components : List.Forall₂ (TextComponent.RevealsBut noted) before.components after.components
  hidden : FlagBut noted (.textObject before.name) before.hidden after.hidden

structure SymbolComponent.RevealsBut (noted : List Element) (before after : SymbolComponent α) :
    Prop where
  name : after.name = before.name
  hidden : FlagBut noted (.symbolComponent before.name) before.hidden after.hidden

structure Content.RevealsBut (noted : List Element) (before after : Content α) : Prop where
  textObjects : List.Forall₂ (TextObject.RevealsBut noted) before.textObjects after.textObjects
  symbols : List.Forall₂ (SymbolComponent.RevealsBut noted) before.symbols after.symbols

/-- The label is on as many lines as before, and nothing of it is hidden that was not hidden before,
the elements noted aside. -/
structure Request.RevealsBut (noted : List Element) (before after : Request α) : Prop where
  content : before.content.RevealsBut noted after.content
  stackLines : after.working.stackLines = before.working.stackLines
  hiddenLevels : ∀ level ∈ after.working.hiddenLevels,
    level ∈ before.working.hiddenLevels ∨ .stackLevel level ∈ noted

variable {noted fewer : List Element}

section Lists

variable {ι : Type} {related stronger : ι → ι → Prop} {first second third : List ι}

theorem forall₂_trans (htrans : ∀ {a b c}, related a b → related b c → related a c)
    (hleft : List.Forall₂ related first second) (hright : List.Forall₂ related second third) :
    List.Forall₂ related first third := by
  induction hleft generalizing third with
  | nil => exact hright
  | cons hhead _ ih =>
    cases hright with
    | cons hnext hrest => exact .cons (htrans hhead hnext) (ih hrest)

theorem forall₂_imp_of_mem (hrelated : List.Forall₂ related first second)
    (himp : ∀ before, ∀ after ∈ second, related before after → stronger before after) :
    List.Forall₂ stronger first second := by
  induction hrelated with
  | nil => exact .nil
  | cons hhead _ ih =>
    exact .cons (himp _ _ List.mem_cons_self hhead)
      (ih fun before after hmem => himp before after (List.mem_cons_of_mem _ hmem))

theorem forall₂_hideFirst {chosen isHidden : ι → Bool} {hide : ι → ι}
    (hrefl : ∀ element, related element element) (elements : List ι)
    (hhide : (hideFirst chosen isHidden hide elements).1 = .hidden →
      ∀ element, chosen element = true → related element (hide element)) :
    List.Forall₂ related elements (hideFirst chosen isHidden hide elements).2 := by
  induction elements with
  | nil => exact .nil
  | cons element rest ih =>
    have hrest := List.forall₂_same.mpr fun other (_ : other ∈ rest) => hrefl other
    rw [hideFirst] at hhide ⊢
    split at hhide
    · rename_i hchosen
      split at hhide
      · rename_i hhidden
        rw [if_pos hchosen, if_pos hhidden]
        exact .cons (hrefl element) hrest
      · rename_i hvisible
        rw [if_pos hchosen, if_neg hvisible]
        exact .cons (hhide rfl element hchosen) hrest
    · rename_i hother
      rw [if_neg hother]
      exact .cons (hrefl element) (ih hhide)

end Lists

namespace FlagBut

variable {element : Element}

theorem refl (flag : Bool) : FlagBut noted element flag flag := Or.inl

theorem trans {first second third : Bool} (hleft : FlagBut noted element first second)
    (hright : FlagBut noted element second third) : FlagBut noted element first third := by
  intro hthird
  obtain hsecond | hnoted := hright hthird
  · exact hleft hsecond
  · exact Or.inr hnoted

theorem clear (flag : Bool) : FlagBut noted element flag false := nofun

theorem narrow {before after : Bool} (hflag : FlagBut noted element before after)
    (hfewer : after = true → element ∈ noted → element ∈ fewer) :
    FlagBut fewer element before after :=
  fun hafter => (hflag hafter).imp_right (hfewer hafter)

end FlagBut

namespace TextComponent.RevealsBut

theorem refl (component : TextComponent) : component.RevealsBut noted component :=
  ⟨rfl, rfl, .refl _⟩

theorem trans {first second third : TextComponent} (hleft : first.RevealsBut noted second)
    (hright : second.RevealsBut noted third) : first.RevealsBut noted third :=
  ⟨hright.name.trans hleft.name, hright.text.trans hleft.text,
    hleft.hidden.trans (hleft.name ▸ hright.hidden)⟩

end TextComponent.RevealsBut

namespace TextObject.RevealsBut

theorem refl (object : TextObject) : object.RevealsBut noted object :=
  ⟨rfl, List.forall₂_same.mpr fun component _ => .refl component, .refl _⟩

theorem trans {first second third : TextObject} (hleft : first.RevealsBut noted second)
    (hright : second.RevealsBut noted third) : first.RevealsBut noted third :=
  ⟨hright.name.trans hleft.name,
    forall₂_trans TextComponent.RevealsBut.trans hleft.components hright.components,
    hleft.hidden.trans (hleft.name ▸ hright.hidden)⟩

theorem hideComponentIn {name : String} (objects : List TextObject)
    (hnoted : (TextObject.hideComponentIn name objects).1 = .hidden →
      .textComponent name ∈ noted) :
    List.Forall₂ (RevealsBut noted) objects (TextObject.hideComponentIn name objects).2 := by
  induction objects with
  | nil => exact .nil
  | cons object rest ih =>
    rw [TextObject.hideComponentIn] at hnoted ⊢
    split at hnoted
    · exact .cons (.refl object) (ih hnoted)
    · rename_i outcome components hfound hhide
      refine .cons ⟨rfl, ?_, .refl _⟩ (List.forall₂_same.mpr fun other _ => .refl other)
      have houtcome : (hideComponent name object.components).1 = outcome := by rw [hhide]
      have hcomponents : (hideComponent name object.components).2 = components := by rw [hhide]
      rw [← hcomponents]
      refine forall₂_hideFirst .refl object.components fun hhidden component hchosen => ?_
      have hname : component.name = name := by simpa using hchosen
      exact ⟨rfl, rfl, fun _ => Or.inr (hname ▸ hnoted (houtcome.symm.trans hhidden))⟩

theorem showComponent (name : String) (object : TextObject) :
    object.RevealsBut noted (object.showComponent name) := by
  refine ⟨rfl, List.forall₂_map_right_iff.mpr (List.forall₂_same.mpr fun component _ => ?_),
    .refl _⟩
  split
  · exact ⟨rfl, rfl, .clear _⟩
  · exact .refl component

end TextObject.RevealsBut

namespace SymbolComponent.RevealsBut

theorem refl (symbol : SymbolComponent α) : symbol.RevealsBut noted symbol := ⟨rfl, .refl _⟩

theorem trans {first second third : SymbolComponent α} (hleft : first.RevealsBut noted second)
    (hright : second.RevealsBut noted third) : first.RevealsBut noted third :=
  ⟨hright.name.trans hleft.name, hleft.hidden.trans (hleft.name ▸ hright.hidden)⟩

end SymbolComponent.RevealsBut

namespace Content.RevealsBut

theorem refl (content : Content α) : content.RevealsBut noted content :=
  ⟨List.forall₂_same.mpr fun object _ => .refl object,
    List.forall₂_same.mpr fun symbol _ => .refl symbol⟩

theorem trans {first second third : Content α} (hleft : first.RevealsBut noted second)
    (hright : second.RevealsBut noted third) : first.RevealsBut noted third :=
  ⟨forall₂_trans TextObject.RevealsBut.trans hleft.textObjects hright.textObjects,
    forall₂_trans SymbolComponent.RevealsBut.trans hleft.symbols hright.symbols⟩

/-- What is hidden just now is the element that was asked for. -/
theorem hide (content : Content α) (target : Element)
    (hnoted : (content.hide target).1 = .hidden → target ∈ noted) :
    content.RevealsBut noted (content.hide target).2 := by
  have hobjects : List.Forall₂ (TextObject.RevealsBut noted) content.textObjects
      content.textObjects := (refl content).textObjects
  have hsymbols : List.Forall₂ (SymbolComponent.RevealsBut noted) content.symbols
      content.symbols := (refl content).symbols
  cases target with
  | textComponent name =>
    exact ⟨TextObject.RevealsBut.hideComponentIn content.textObjects hnoted, hsymbols⟩
  | symbolComponent name =>
    refine ⟨hobjects, forall₂_hideFirst .refl content.symbols fun hhidden symbol hchosen => ?_⟩
    have hname : symbol.name = name := by simpa using hchosen
    exact ⟨rfl, fun _ => Or.inr (hname ▸ hnoted hhidden)⟩
  | textObject name =>
    refine ⟨forall₂_hideFirst .refl content.textObjects fun hhidden object hchosen => ?_, hsymbols⟩
    have hname : object.name = name := by simpa using hchosen
    exact ⟨rfl, (TextObject.RevealsBut.refl object).components,
      fun _ => Or.inr (hname ▸ hnoted hhidden)⟩
  | stackLevel level => exact refl content

/-- Restoring hides nothing. -/
theorem restore (content : Content α) (target : Element) :
    content.RevealsBut noted (content.restore target) := by
  have hobjects : List.Forall₂ (TextObject.RevealsBut noted) content.textObjects
      content.textObjects := (refl content).textObjects
  have hsymbols : List.Forall₂ (SymbolComponent.RevealsBut noted) content.symbols
      content.symbols := (refl content).symbols
  cases target with
  | textComponent name =>
    exact ⟨List.forall₂_map_right_iff.mpr
      (List.forall₂_same.mpr fun object _ => .showComponent name object), hsymbols⟩
  | symbolComponent name =>
    refine ⟨hobjects, List.forall₂_map_right_iff.mpr (List.forall₂_same.mpr fun symbol _ => ?_)⟩
    split
    · exact ⟨rfl, .clear _⟩
    · exact .refl symbol
  | textObject name =>
    refine ⟨List.forall₂_map_right_iff.mpr (List.forall₂_same.mpr fun object _ => ?_), hsymbols⟩
    split
    · exact ⟨rfl, (TextObject.RevealsBut.refl object).components, .clear _⟩
    · exact .refl object
  | stackLevel level => exact refl content

/-- Only those noted elements count that are hidden. -/
theorem narrow {before after : Content α} (hreveals : before.RevealsBut noted after)
    (hfewer : ∀ element ∈ after.hiddenElements, element ∈ noted → element ∈ fewer) :
    before.RevealsBut fewer after := by
  refine ⟨forall₂_imp_of_mem hreveals.textObjects fun object changed hobject hrelated => ?_,
    forall₂_imp_of_mem hreveals.symbols fun symbol changed hsymbol hrelated => ?_⟩
  · refine ⟨hrelated.name, forall₂_imp_of_mem hrelated.components
      fun component other hcomponent hflag => ⟨hflag.name, hflag.text, hflag.hidden.narrow ?_⟩,
      hrelated.hidden.narrow ?_⟩
    · exact fun hhidden => hfewer _ (textComponent_mem_hiddenElements.mpr
        ⟨changed, hobject, other, hcomponent, hhidden, hflag.name⟩)
    · exact fun hhidden => hfewer _ (textObject_mem_hiddenElements.mpr
        ⟨changed, hobject, hhidden, hrelated.name⟩)
  · exact ⟨hrelated.name, hrelated.hidden.narrow fun hhidden =>
      hfewer _ (symbolComponent_mem_hiddenElements.mpr ⟨changed, hsymbol, hhidden, hrelated.name⟩)⟩

end Content.RevealsBut

namespace Request.RevealsBut

theorem refl (request : Request α) : request.RevealsBut noted request :=
  ⟨.refl _, rfl, fun _ => Or.inl⟩

theorem trans {first second third : Request α} (hleft : first.RevealsBut noted second)
    (hright : second.RevealsBut noted third) : first.RevealsBut noted third := by
  refine ⟨hleft.content.trans hright.content, hright.stackLines.trans hleft.stackLines,
    fun level hlevel => ?_⟩
  obtain hsecond | hnoted := hright.hiddenLevels level hlevel
  · exact hleft.hiddenLevels level hsecond
  · exact Or.inr hnoted

theorem hide (request : Request α) (target : Element)
    (hnoted : (request.hide target).1 = .hidden → target ∈ noted) :
    request.RevealsBut noted (request.hide target).2 := by
  cases target with
  | stackLevel level =>
    rw [Request.hide] at hnoted ⊢
    split at hnoted
    · rename_i hmissing
      rw [if_pos hmissing]
      exact refl request
    · rename_i hthere
      rw [if_neg hthere]
      split at hnoted
      · rename_i hhidden
        rw [if_pos hhidden]
        exact refl request
      · rename_i hshown
        rw [if_neg hshown]
        refine ⟨.refl _, rfl, fun other hother => ?_⟩
        obtain rfl | hkept := Working.mem_insertLevel.mp hother
        · exact Or.inr (hnoted rfl)
        · exact Or.inl hkept
  | textComponent name =>
    exact ⟨.hide request.content (.textComponent name) hnoted, rfl, fun _ => Or.inl⟩
  | symbolComponent name =>
    exact ⟨.hide request.content (.symbolComponent name) hnoted, rfl, fun _ => Or.inl⟩
  | textObject name =>
    exact ⟨.hide request.content (.textObject name) hnoted, rfl, fun _ => Or.inl⟩

theorem restore (request : Request α) (target : Element) :
    request.RevealsBut noted (request.restore target) := by
  cases target with
  | stackLevel level =>
    exact ⟨.refl _, rfl, fun other hother => Or.inl (List.mem_filter.mp hother).1⟩
  | textComponent name =>
    exact ⟨.restore request.content (.textComponent name), rfl, fun _ => Or.inl⟩
  | symbolComponent name =>
    exact ⟨.restore request.content (.symbolComponent name), rfl, fun _ => Or.inl⟩
  | textObject name => exact ⟨.restore request.content (.textObject name), rfl, fun _ => Or.inl⟩

theorem foldl_restore (elements : List Element) (request : Request α) :
    request.RevealsBut noted (elements.foldl Request.restore request) := by
  induction elements generalizing request with
  | nil => exact refl request
  | cons element rest ih => exact (restore request element).trans (ih _)

theorem narrow {before after : Request α} (hreveals : before.RevealsBut noted after)
    (hfewer : ∀ element ∈ after.hiddenElements, element ∈ noted → element ∈ fewer) :
    before.RevealsBut fewer after := by
  refine ⟨hreveals.content.narrow fun element hhidden => hfewer element ?_, hreveals.stackLines,
    fun level hlevel => (hreveals.hiddenLevels level hlevel).imp_right (hfewer _ ?_)⟩
  · exact mem_hiddenElements.mpr (Or.inl hhidden)
  · exact mem_hiddenElements.mpr (Or.inr ⟨level, hlevel, rfl⟩)

/-- Hiding one element after the other hides no more than is noted. -/
theorem hideAll (targets : List Element) (request : Request α)
    (hnoted : ∀ element ∈ (HideAttempt.hideAll request targets).2.1, element ∈ noted) :
    request.RevealsBut noted (HideAttempt.hideAll request targets).2.2 := by
  induction targets generalizing request with
  | nil => exact refl request
  | cons target rest ih =>
    rw [HideAttempt.hideAll] at hnoted ⊢
    split at hnoted
    · exact refl request
    · rename_i outcome changed hfound hhide
      have hfirst : request.RevealsBut noted changed := by
        have hchanged : (request.hide target).2 = changed := by rw [hhide]
        rw [← hchanged]
        refine hide request target fun houtcome => hnoted target ?_
        rw [hhide] at houtcome
        simp [show outcome = .hidden from houtcome]
      refine hfirst.trans (ih changed fun element hmem => hnoted element ?_)
      simp only
      split
      · exact List.mem_cons_of_mem _ hmem
      · exact hmem

/-- Whatever an attempt has hidden, restoring what it noted leaves nothing hidden that was not. -/
theorem restore_hideAll (targets : List Element) (request : Request α) :
    request.RevealsBut [] ((HideAttempt.hideAll request targets).2.1.foldl Request.restore
      (HideAttempt.hideAll request targets).2.2) := by
  have hhidden := hideAll targets request fun _ hmem => hmem
  refine (hhidden.trans (foldl_restore _ _)).narrow fun element hmem hnoted => ?_
  exact absurd hnoted (mem_hiddenElements_foldl_restore.mp hmem).2

end Request.RevealsBut

end LabelPlacement
