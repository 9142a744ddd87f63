import LabelPlacement.Label.Content
/-!
Hide attempts: which elements of a label may be left out together so that it fits.

Attempts are tried in their order.  Each consists of groups, and each group names elements of one
kind; all elements of an attempt are hidden at once.
-/

namespace LabelPlacement

inductive ElementKind
  | textComponent
  | symbolComponent
  | textObject
  | stackLevel
  deriving BEq, DecidableEq

namespace ElementKind

def keyword : ElementKind → List Char
  | .textComponent => ['T', 'C']
  | .symbolComponent => ['S', 'C']
  | .textObject => ['T', 'O']
  | .stackLevel => ['L']

/-- The kind of a keyword in any mixture of upper and lower case. -/
def ofKeyword? (keyword : List Char) : Option ElementKind :=
  let upper := keyword.map Char.toUpper
  if upper = ElementKind.textComponent.keyword then some .textComponent
  else if upper = ElementKind.symbolComponent.keyword then some .symbolComponent
  else if upper = ElementKind.textObject.keyword then some .textObject
  else if upper = ElementKind.stackLevel.keyword then some .stackLevel
  else none

end ElementKind

structure HideGroup where
  kind : ElementKind
  targets : List Element
  deriving BEq, DecidableEq

structure HideAttempt where
  groups : List HideGroup
  deriving BEq, DecidableEq

def HideAttempt.targets (attempt : HideAttempt) : List Element :=
  attempt.groups.flatMap HideGroup.targets

namespace HideText

def separated (separator : Char) : List (List Char) → List Char
  | [] => []
  | [text] => text
  | text :: rest => text ++ separator :: separated separator rest

def ofElement : Element → List Char
  | .textComponent name | .symbolComponent name | .textObject name => name.toList
  | .stackLevel level => Nat.toDigits 10 level

def ofGroup (group : HideGroup) : List Char :=
  group.kind.keyword ++ '(' :: (separated ',' (group.targets.map ofElement) ++ [')'])

def ofAttempt (attempt : HideAttempt) : List Char := separated '&' (attempt.groups.map ofGroup)

def ofAttempts (attempts : List HideAttempt) : List Char := separated ',' (attempts.map ofAttempt)

end HideText

end LabelPlacement
