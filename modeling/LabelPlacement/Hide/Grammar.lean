import LabelPlacement.Hide.Attempt
import LabelPlacement.Text.Digit
/-!
Reading hide attempts from text.

```text
attempts := attempt (',' attempt)*
attempt  := group ('&' group)*
group    := ('TC' | 'SC' | 'TO') '(' name (',' name)* ')'
          | 'L' '(' level (',' level)* ')'
```

Blanks around tokens are skipped; a name may hold blanks inside.  A fault is reported with the
number of bytes in front of it.
-/

namespace LabelPlacement

inductive HideFault
  | expectedKind
  | unknownKind (keyword : String)
  | expectedParenthesis
  | unterminatedGroup
  | unexpectedInName (character : Char)
  | emptyName
  | invalidLevel (name : String)
  | expectedSeparator (character : Char)
  deriving BEq, DecidableEq

def HideFault.message : HideFault → String
  | .expectedKind => "expected element kind (TC, SC, TO or L)"
  | .unknownKind keyword => "unknown element kind '" ++ keyword ++ "'"
  | .expectedParenthesis => "expected '('"
  | .unterminatedGroup => "unterminated element group"
  | .unexpectedInName character => "unexpected '" ++ character.toString ++ "' in element name"
  | .emptyName => "empty element name"
  | .invalidLevel name => "invalid stack level '" ++ name ++ "'"
  | .expectedSeparator character =>
    "expected ',' or end of input, found '" ++ character.toString ++ "'"

/-- A fault and the number of bytes in front of it. -/
structure HideTextError where
  offset : Nat
  fault : HideFault
  deriving BEq, DecidableEq

namespace HideText

def byteLength : List Char → Nat
  | [] => 0
  | character :: rest => character.utf8Size + byteLength rest

/-- A place in a text: the number of bytes in front of it and the characters behind it. -/
structure Cursor where
  offset : Nat
  rest : List Char

namespace Cursor

def skip (cursor : Cursor) (accepts : Char → Bool) : Cursor :=
  { offset := cursor.offset + byteLength (cursor.rest.takeWhile accepts)
    rest := cursor.rest.dropWhile accepts }

def advance (cursor : Cursor) : Cursor :=
  { offset := cursor.offset + byteLength (cursor.rest.take 1), rest := cursor.rest.drop 1 }

theorem length_skip_le (cursor : Cursor) (accepts : Char → Bool) :
    (cursor.skip accepts).rest.length ≤ cursor.rest.length :=
  (List.dropWhile_sublist accepts).length_le

theorem length_advance_lt {cursor : Cursor} {character : Char} {rest : List Char}
    (starts : cursor.rest = character :: rest) :
    cursor.advance.rest.length < cursor.rest.length := by
  simp [advance, starts]

theorem length_advance_le (cursor : Cursor) : cursor.advance.rest.length ≤ cursor.rest.length := by
  simp [advance]

theorem length_skip_advance_lt {cursor : Cursor} {accepts : Char → Bool} {character : Char}
    {rest : List Char} (starts : (cursor.skip accepts).rest = character :: rest) :
    (cursor.skip accepts).advance.rest.length < cursor.rest.length :=
  Nat.lt_of_lt_of_le (length_advance_lt starts) (cursor.length_skip_le accepts)

def fail {ι : Type} (cursor : Cursor) (fault : HideFault) : Except HideTextError ι :=
  .error ⟨cursor.offset, fault⟩

end Cursor

def isNameCharacter (character : Char) : Bool :=
  character != ',' && character != ')' && character != '(' && character != '&'

/-- The number of a stack level: digits after an optional plus sign, from 1 to the largest 32-bit
number. -/
def level? (name : List Char) : Option Nat :=
  let digits := if name.head? = some '+' then name.tail else name
  if digits.isEmpty || !digits.all Char.isDigit then none
  else
    let value := Text.decimalValue digits
    if 0 < value ∧ value < 0x100000000 then some value else none

def element (kind : ElementKind) (name : List Char) : Except HideFault Element :=
  match kind with
  | .textComponent => .ok (.textComponent (String.ofList name))
  | .symbolComponent => .ok (.symbolComponent (String.ofList name))
  | .textObject => .ok (.textObject (String.ofList name))
  | .stackLevel =>
    match level? name with
    | some level => .ok (.stackLevel level)
    | none => .error (.invalidLevel (String.ofList name))

def item (kind : ElementKind) (start : Cursor) (raw : List Char) :
    Except HideTextError Element :=
  let name := Text.trim raw
  let place := start.skip Text.isBlank
  if name.isEmpty then place.fail .emptyName
  else
    match element kind name with
    | .ok element => .ok element
    | .error fault => place.fail fault

def items (kind : ElementKind) (start : Cursor) : Except HideTextError (List Element × Cursor) :=
  let stop := start.skip isNameCharacter
  match _stops : stop.rest with
  | [] => stop.fail .unterminatedGroup
  | separator :: _ =>
    if separator = ',' then
      match item kind start (start.rest.takeWhile isNameCharacter) with
      | .error error => .error error
      | .ok element =>
        match items kind stop.advance with
        | .error error => .error error
        | .ok (elements, finish) => .ok (element :: elements, finish)
    else if separator = ')' then
      match item kind start (start.rest.takeWhile isNameCharacter) with
      | .error error => .error error
      | .ok element => .ok ([element], stop.advance)
    else stop.fail (.unexpectedInName separator)
termination_by start.rest.length
decreasing_by
  exact Cursor.length_skip_advance_lt _stops

theorem length_of_items {kind : ElementKind} {start finish : Cursor} {elements : List Element}
    (read : items kind start = .ok (elements, finish)) :
    finish.rest.length < start.rest.length := by
  fun_induction items kind start generalizing elements finish with
  | case1 | case2 | case3 | case5 | case7 => simp_all [Cursor.fail]
  | case4 _ _ _ _ _ _ _ tailRead starts =>
    rename_i induction
    cases read
    exact Nat.lt_trans (induction tailRead) (Cursor.length_skip_advance_lt starts)
  | case6 _ _ _ _ _ starts =>
    cases read
    exact Cursor.length_skip_advance_lt starts

def group (start : Cursor) : Except HideTextError (HideGroup × Cursor) :=
  let first := start.skip Text.isBlank
  let keyword := first.rest.takeWhile Char.isAlpha
  if keyword.isEmpty then first.fail .expectedKind
  else
    match ElementKind.ofKeyword? keyword with
    | none => first.fail (.unknownKind (String.ofList keyword))
    | some kind =>
      let opening := (first.skip Char.isAlpha).skip Text.isBlank
      if opening.rest.head? = some '(' then
        match items kind opening.advance with
        | .error error => .error error
        | .ok (targets, finish) => .ok ({ kind, targets }, finish)
      else opening.fail .expectedParenthesis

theorem length_of_group {start finish : Cursor} {found : HideGroup}
    (read : group start = .ok (found, finish)) : finish.rest.length < start.rest.length := by
  unfold group at read
  simp only at read
  split at read
  · cases read
  split at read
  · cases read
  split at read
  · split at read
    · cases read
    · rename_i opened _ _ _ itemsRead
      cases read
      refine Nat.lt_of_lt_of_le (length_of_items itemsRead) ?_
      refine Nat.le_trans (Cursor.length_advance_le _) ?_
      refine Nat.le_trans (Cursor.length_skip_le _ _) ?_
      exact Nat.le_trans (Cursor.length_skip_le _ _) (Cursor.length_skip_le _ _)
  · cases read

/-- The groups of an attempt and the place of the first character that is neither blank nor part of
them. -/
def groups (start : Cursor) : Except HideTextError (List HideGroup × Cursor) :=
  match _read : group start with
  | .error error => .error error
  | .ok (found, finish) =>
    let next := finish.skip Text.isBlank
    if next.rest.head? = some '&' then
      match groups next.advance with
      | .error error => .error error
      | .ok (others, last) => .ok (found :: others, last)
    else .ok ([found], next)
termination_by start.rest.length
decreasing_by
  refine Nat.lt_of_le_of_lt (Cursor.length_advance_le _) ?_
  exact Nat.lt_of_le_of_lt (Cursor.length_skip_le _ _) (length_of_group _read)

theorem length_of_groups {start finish : Cursor} {found : List HideGroup}
    (read : groups start = .ok (found, finish)) : finish.rest.length < start.rest.length := by
  fun_induction groups start generalizing found finish with
  | case1 | case2 => cases read
  | case3 _ _ _ _ _ _ _ _ othersRead =>
    rename_i induction
    cases read
    refine Nat.lt_of_lt_of_le (induction othersRead) ?_
    refine Nat.le_trans (Cursor.length_advance_le _) ?_
    exact Nat.le_trans (Cursor.length_skip_le _ _) (Nat.le_of_lt (length_of_group (by assumption)))
  | case4 _ _ _ groupRead =>
    cases read
    exact Nat.lt_of_le_of_lt (Cursor.length_skip_le _ _) (length_of_group groupRead)

def attempts (start : Cursor) : Except HideTextError (List HideAttempt) :=
  match _read : groups start with
  | .error error => .error error
  | .ok (groups, finish) =>
    match finish.rest with
    | [] => .ok [{ groups }]
    | character :: _ =>
      if character = ',' then
        match attempts finish.advance with
        | .error error => .error error
        | .ok others => .ok ({ groups } :: others)
      else finish.fail (.expectedSeparator character)
termination_by start.rest.length
decreasing_by
  exact Nat.lt_of_le_of_lt (Cursor.length_advance_le _) (length_of_groups _read)

end HideText

def HideText.parse (text : String) : Except HideTextError (List HideAttempt) :=
  attempts ⟨0, text.toList⟩

def HideText.render (attempts : List HideAttempt) : String :=
  String.ofList (ofAttempts attempts)

end LabelPlacement
