import LabelPlacement.Decimal.Scientific
import LabelPlacement.Decimal.Shortest
import LabelPlacement.Json.Value
import LabelPlacement.Text.Digit
/-!
Reading and writing the text of JSON values.

A number written without a point and without an exponent is an integer, except for minus zero, which
only floating point can tell from zero.  Of several fields of one name the last one counts.
-/

namespace LabelPlacement.Json

def skipSpace (text : List Char) : List Char :=
  text.dropWhile fun character =>
    character == ' ' || character == '\t' || character == '\n' || character == '\r'

/-- The character that one or two code units stand for, read behind the first escape mark. -/
def unicode? (text : List Char) : Option (Char × List Char) := do
  let (unit, rest) ← Text.hexNumber? 4 text
  if unit.isValidChar then return (Char.ofNat unit, rest)
  else
    match rest with
    | '\\' :: 'u' :: rest => do
      let (second, rest) ← Text.hexNumber? 4 rest
      if unit < 0xDC00 ∧ 0xDC00 ≤ second ∧ second < 0xE000 then
        return (Char.ofNat (0x10000 + (unit - 0xD800) * 0x400 + (second - 0xDC00)), rest)
      else none
    | _ => none

def escape? : List Char → Option (Char × List Char)
  | '"' :: rest => some ('"', rest)
  | '\\' :: rest => some ('\\', rest)
  | '/' :: rest => some ('/', rest)
  | 'b' :: rest => some ('\x08', rest)
  | 'f' :: rest => some ('\x0c', rest)
  | 'n' :: rest => some ('\n', rest)
  | 'r' :: rest => some ('\r', rest)
  | 't' :: rest => some ('\t', rest)
  | 'u' :: rest => unicode? rest
  | _ => none

def characters? : (steps : Nat) → List Char → Option (List Char × List Char)
  | 0, _ => none
  | _, [] => none
  | steps + 1, character :: rest =>
    if character = '"' then some ([], rest)
    else if character = '\\' then do
      let (escaped, rest) ← escape? rest
      let (others, rest) ← characters? steps rest
      return (escaped :: others, rest)
    else if character < ' ' then none
    else do
      let (others, rest) ← characters? steps rest
      return (character :: others, rest)

def quoted? (text : List Char) : Option (String × List Char) := do
  let (characters, rest) ← characters? text.length text
  return (String.ofList characters, rest)

def digits? (text : List Char) : Option (List Char × List Char) :=
  match text.takeWhile Char.isDigit with
  | [] => none
  | digits => some (digits, text.dropWhile Char.isDigit)

def sign : List Char → Bool × List Char
  | '-' :: rest => (true, rest)
  | text => (false, text)

def fraction? : List Char → Option (Option (List Char) × List Char)
  | '.' :: rest => do
    let (digits, rest) ← digits? rest
    return (some digits, rest)
  | text => some (none, text)

def exponent? : List Char → Option (Option Int × List Char)
  | character :: rest =>
    if character = 'e' ∨ character = 'E' then do
      let unsigned :=
        match rest with
        | '+' :: rest => (false, rest)
        | rest => sign rest
      let (digits, rest) ← digits? unsigned.2
      let value := Text.decimalValue digits
      return (some (if unsigned.1 then -value else value), rest)
    else some (none, character :: rest)
  | [] => some (none, [])

def numeral? (text : List Char) : Option (Json Float × List Char) := do
  let (negative, text) := sign text
  let (whole, text) ← digits? text
  if whole.head? = some '0' ∧ 1 < whole.length then none
  let (fraction, text) ← fraction? text
  let (exponent, text) ← exponent? text
  let value := Text.decimalValue whole
  if fraction.isNone ∧ exponent.isNone ∧ ¬ (negative ∧ value = 0) then
    return (integer (if negative then -value else value), text)
  else
    return (number (Decimal.ofDigits negative whole (fraction.getD []) (exponent.getD 0)), text)

/-- Fields with one more, which replaces an earlier one of its name. -/
def insertField (name : String) (value : Json Float) (fields : List (String × Json Float)) :
    List (String × Json Float) :=
  fields.filter (·.1 != name) ++ [(name, value)]

def items? (value? : List Char → Option (Json Float × List Char)) : (steps : Nat) → List Char →
    Option (List (Json Float) × List Char)
  | 0, _ => none
  | steps + 1, text => do
    let (value, rest) ← value? text
    match skipSpace rest with
    | ',' :: rest => do
      let (others, rest) ← items? value? steps rest
      return (value :: others, rest)
    | ']' :: rest => return ([value], rest)
    | _ => none

/-- The fields of an object up to its closing brace, added to those in front; there is at least
one. -/
def members? (value? : List Char → Option (Json Float × List Char))
    (fields : List (String × Json Float)) : (steps : Nat) → List Char →
    Option (List (String × Json Float) × List Char)
  | 0, _ => none
  | steps + 1, text =>
    match skipSpace text with
    | '"' :: rest => do
      let (name, rest) ← quoted? rest
      match skipSpace rest with
      | ':' :: rest => do
        let (value, rest) ← value? rest
        let fields := insertField name value fields
        match skipSpace rest with
        | ',' :: rest => members? value? fields steps rest
        | '\x7d' :: rest => return (fields, rest)
        | _ => none
      | _ => none
    | _ => none

def value? : (depth : Nat) → List Char → Option (Json Float × List Char)
  | 0, _ => none
  | depth + 1, text =>
    match skipSpace text with
    | 'n' :: 'u' :: 'l' :: 'l' :: rest => some (null, rest)
    | 't' :: 'r' :: 'u' :: 'e' :: rest => some (bool true, rest)
    | 'f' :: 'a' :: 'l' :: 's' :: 'e' :: rest => some (bool false, rest)
    | '"' :: rest => do
      let (value, rest) ← quoted? rest
      return (string value, rest)
    | '[' :: rest =>
      match skipSpace rest with
      | ']' :: rest => some (array [], rest)
      | rest => do
        let (items, rest) ← items? (value? depth) rest.length rest
        return (array items, rest)
    | '\x7b' :: rest =>
      match skipSpace rest with
      | '\x7d' :: rest => some (object [], rest)
      | rest => do
        let (fields, rest) ← members? (value? depth) [] rest.length rest
        return (object fields, rest)
    | text => numeral? text

def parse (text : String) : Option (Json Float) := do
  let characters := text.toList
  let (value, rest) ← value? (characters.length + 1) characters
  if (skipSpace rest).isEmpty then return value else none

/-- The written form of a character within a string: quotation marks, backslashes and control
characters are escaped. -/
def escaped (character : Char) : List Char :=
  if character = '"' ∨ character = '\\' then ['\\', character]
  else if character < ' ' then
    ['\\', 'u', '0', '0', Nat.digitChar (character.toNat / 16),
      Nat.digitChar (character.toNat % 16)]
  else [character]

def quoted (text : String) : String :=
  String.ofList ('"' :: (text.toList.flatMap escaped ++ ['"']))

mutual

def render : Json Float → String
  | null => "null"
  | bool value => if value then "true" else "false"
  | integer value => toString value
  | number value => Decimal.renderShortest value
  | string value => quoted value
  | array items => "[" ++ renderItems items ++ "]"
  | object fields => "\x7b" ++ renderFields fields ++ "\x7d"

def renderItems : List (Json Float) → String
  | [] => ""
  | [item] => render item
  | item :: rest => render item ++ "," ++ renderItems rest

def renderFields : List (String × Json Float) → String
  | [] => ""
  | [(name, value)] => quoted name ++ ":" ++ render value
  | (name, value) :: rest => quoted name ++ ":" ++ render value ++ "," ++ renderFields rest

end

end LabelPlacement.Json
