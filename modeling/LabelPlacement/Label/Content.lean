import LabelPlacement.Text.Blank
/-!
What a label shows: text objects made of named components, and symbols of a given size.
-/

namespace LabelPlacement

structure TextComponent where
  name : String
  text : String
  hidden : Bool := false
  deriving BEq, DecidableEq

structure TextObject where
  name : String
  components : List TextComponent
  hidden : Bool := false
  deriving BEq, DecidableEq

structure SymbolComponent (α : Type) where
  name : String
  width : α
  height : α
  hidden : Bool := false
  deriving BEq, DecidableEq

structure Content (α : Type) where
  textObjects : List TextObject
  symbols : List (SymbolComponent α)
  deriving BEq, DecidableEq

inductive Element
  | textComponent (name : String)
  | symbolComponent (name : String)
  | textObject (name : String)
  | stackLevel (level : Nat)
  deriving BEq, DecidableEq

def Element.render : Element → String
  | .textComponent name => "TC(" ++ name ++ ")"
  | .symbolComponent name => "SC(" ++ name ++ ")"
  | .textObject name => "TO(" ++ name ++ ")"
  | .stackLevel level => "L(" ++ toString level ++ ")"

inductive HideOutcome
  | hidden
  | alreadyHidden
  | missing
  deriving BEq, DecidableEq

def HideOutcome.found : HideOutcome → Bool
  | .missing => false
  | _ => true

/-- The text that the visible components make, unless nothing of it can be seen. -/
def TextObject.visibleText? (object : TextObject) : Option String :=
  if object.hidden then none
  else
    let parts := object.components.filterMap fun component =>
      let text := trimmed component.text
      if component.hidden || text.isEmpty then none else some text
    if parts.isEmpty then none else some (" ".intercalate parts)

def hideFirst {ι : Type} (chosen : ι → Bool) (isHidden : ι → Bool) (hide : ι → ι) :
    List ι → HideOutcome × List ι
  | [] => (.missing, [])
  | element :: rest =>
    if chosen element then
      if isHidden element then (.alreadyHidden, element :: rest)
      else (.hidden, hide element :: rest)
    else
      let (outcome, changed) := hideFirst chosen isHidden hide rest
      (outcome, element :: changed)

namespace TextObject

def hideComponent (name : String) (components : List TextComponent) :
    HideOutcome × List TextComponent :=
  hideFirst (·.name == name) (·.hidden) ({ · with hidden := true }) components

/-- Hides the first component of a name among all text objects. -/
def hideComponentIn (name : String) : List TextObject → HideOutcome × List TextObject
  | [] => (.missing, [])
  | object :: rest =>
    match hideComponent name object.components with
    | (.missing, _) =>
      let (outcome, changed) := hideComponentIn name rest
      (outcome, object :: changed)
    | (outcome, components) => (outcome, { object with components } :: rest)

/-- Shows all components of a name. -/
def showComponent (name : String) (object : TextObject) : TextObject :=
  { object with components := object.components.map fun component =>
      if component.name == name then { component with hidden := false } else component }

def hiddenElements (object : TextObject) : List Element :=
  (if object.hidden then [.textObject object.name] else []) ++
    object.components.filterMap fun component =>
      if component.hidden then some (.textComponent component.name) else none

end TextObject

namespace Content

variable {α : Type}

def single (text : String) : Content α :=
  { textObjects := [{ name := "main", components := [{ name := "name", text }] }]
    symbols := [] }

def visibleTexts (content : Content α) : List String :=
  content.textObjects.filterMap TextObject.visibleText?

def words (content : Content α) : List String := content.visibleTexts.flatMap wordsOf

def visibleSymbols (content : Content α) : List (SymbolComponent α) :=
  content.symbols.filter (!·.hidden)

/-- Hides an element other than a stack level. -/
def hide (content : Content α) : Element → HideOutcome × Content α
  | .textComponent name =>
    let (outcome, textObjects) := TextObject.hideComponentIn name content.textObjects
    (outcome, { content with textObjects })
  | .symbolComponent name =>
    let (outcome, symbols) :=
      hideFirst (·.name == name) (·.hidden) ({ · with hidden := true }) content.symbols
    (outcome, { content with symbols })
  | .textObject name =>
    let (outcome, textObjects) :=
      hideFirst (·.name == name) (·.hidden) ({ · with hidden := true }) content.textObjects
    (outcome, { content with textObjects })
  | .stackLevel _ => (.missing, content)

/-- Shows all elements of a name; stack levels are not part of the content. -/
def restore (content : Content α) : Element → Content α
  | .textComponent name =>
    { content with textObjects := content.textObjects.map (·.showComponent name) }
  | .symbolComponent name =>
    { content with symbols := content.symbols.map fun symbol =>
        if symbol.name == name then { symbol with hidden := false } else symbol }
  | .textObject name =>
    { content with textObjects := content.textObjects.map fun object =>
        if object.name == name then { object with hidden := false } else object }
  | .stackLevel _ => content

/-- The hidden elements in the order of declaration, stack levels left aside. -/
def hiddenElements (content : Content α) : List Element :=
  content.textObjects.flatMap TextObject.hiddenElements ++
    content.symbols.filterMap fun symbol =>
      if symbol.hidden then some (.symbolComponent symbol.name) else none

end Content

end LabelPlacement
