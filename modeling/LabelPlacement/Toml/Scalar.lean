import LabelPlacement.Decimal.Scientific
import LabelPlacement.Text.Digit
import LabelPlacement.Toml.Value
/-!
Reading the scalars and keys of TOML: strings, numbers, truth values and dates.

A reader takes the characters in front of it and gives what it has read and the characters that
follow.  Readers that repeat get a bound on their steps; every step takes at least one character, so
the number of characters is always enough.
-/

namespace LabelPlacement.Toml

def skipBlanks (text : List Char) : List Char :=
  text.dropWhile fun character => character == ' ' || character == '\t'

def newline? : List Char → Option (List Char)
  | '\n' :: rest => some rest
  | '\r' :: '\n' :: rest => some rest
  | _ => none

/-- Whether a character may stand in comments and strings: tabs, and all but control characters. -/
def isPrintable (character : Char) : Bool :=
  character == '\t' || (' ' ≤ character && character != '\x7f')

def skipComment : List Char → List Char
  | '#' :: rest => rest.dropWhile isPrintable
  | text => text

def unicode? (count : Nat) (text : List Char) : Option (Char × List Char) := do
  let (code, rest) ← Text.hexNumber? count text
  if code.isValidChar then return (Char.ofNat code, rest) else none

def escape? : List Char → Option (Char × List Char)
  | 'b' :: rest => some ('\x08', rest)
  | 't' :: rest => some ('\t', rest)
  | 'n' :: rest => some ('\n', rest)
  | 'f' :: rest => some ('\x0c', rest)
  | 'r' :: rest => some ('\r', rest)
  | '"' :: rest => some ('"', rest)
  | '\\' :: rest => some ('\\', rest)
  | 'u' :: rest => unicode? 4 rest
  | 'U' :: rest => unicode? 8 rest
  | _ => none

def basicString? : (steps : Nat) → List Char → Option (List Char × List Char)
  | 0, _ => none
  | _, [] => none
  | steps + 1, character :: rest =>
    if character = '"' then some ([], rest)
    else if character = '\\' then do
      let (escaped, rest) ← escape? rest
      let (others, rest) ← basicString? steps rest
      return (escaped :: others, rest)
    else if isPrintable character then do
      let (others, rest) ← basicString? steps rest
      return (character :: others, rest)
    else none

def literalString? (text : List Char) : Option (List Char × List Char) :=
  let content := text.takeWhile fun character => isPrintable character && character != '\''
  match text.drop content.length with
  | '\'' :: rest => some (content, rest)
  | _ => none

def skipSpace : List Char → List Char
  | ' ' :: rest => skipSpace rest
  | '\t' :: rest => skipSpace rest
  | '\n' :: rest => skipSpace rest
  | '\r' :: '\n' :: rest => skipSpace rest
  | text => text

/-- The end of a string in triple quotation marks: up to two more marks in front of the closing ones
belong to the string. -/
def closing? (mark : Char) (text : List Char) : Option (List Char × List Char) :=
  let marks := (text.takeWhile (· == mark)).length
  if marks < 3 then none
  else some (List.replicate (min marks 5 - 3) mark, text.drop (min marks 5))

/-- The rest of a basic string of several lines.  A backslash at the end of a line takes away the
space up to the next character. -/
def longBasicString? : (steps : Nat) → List Char → Option (List Char × List Char)
  | 0, _ => none
  | _, [] => none
  | steps + 1, character :: rest =>
    if character = '"' then
      match closing? '"' (character :: rest) with
      | some finish => some finish
      | none => do
        let (others, rest) ← longBasicString? steps rest
        return ('"' :: others, rest)
    else if character = '\\' then
      match newline? (skipBlanks rest) with
      | some rest => longBasicString? steps (skipSpace rest)
      | none => do
        let (escaped, rest) ← escape? rest
        let (others, rest) ← longBasicString? steps rest
        return (escaped :: others, rest)
    else
      match newline? (character :: rest) with
      | some rest => do
        let (others, rest) ← longBasicString? steps rest
        return ('\n' :: others, rest)
      | none =>
        if isPrintable character then do
          let (others, rest) ← longBasicString? steps rest
          return (character :: others, rest)
        else none

def longLiteralString? : (steps : Nat) → List Char → Option (List Char × List Char)
  | 0, _ => none
  | _, [] => none
  | steps + 1, character :: rest =>
    match closing? '\'' (character :: rest) with
    | some finish => some finish
    | none =>
      match newline? (character :: rest) with
      | some rest => do
        let (others, rest) ← longLiteralString? steps rest
        return ('\n' :: others, rest)
      | none =>
        if isPrintable character then do
          let (others, rest) ← longLiteralString? steps rest
          return (character :: others, rest)
        else none

def string? (text : List Char) : Option (String × List Char) := do
  let (content, rest) ←
    match text with
    | '"' :: '"' :: '"' :: rest => longBasicString? text.length ((newline? rest).getD rest)
    | '\'' :: '\'' :: '\'' :: rest => longLiteralString? text.length ((newline? rest).getD rest)
    | '"' :: rest => basicString? text.length rest
    | '\'' :: rest => literalString? rest
    | _ => none
  return (String.ofList content, rest)

def isKeyCharacter (character : Char) : Bool :=
  character.isAlphanum || character == '-' || character == '_'

def simpleKey? (text : List Char) : Option (String × List Char) :=
  match text with
  | '"' :: rest => (basicString? text.length rest).map fun (key, rest) => (String.ofList key, rest)
  | '\'' :: rest => (literalString? rest).map fun (key, rest) => (String.ofList key, rest)
  | _ =>
    let key := text.takeWhile isKeyCharacter
    if key.isEmpty then none else some (String.ofList key, text.drop key.length)

def key? : (steps : Nat) → List Char → Option (List String × List Char)
  | 0, _ => none
  | steps + 1, text => do
    let (part, rest) ← simpleKey? (skipBlanks text)
    match skipBlanks rest with
    | '.' :: rest => do
      let (others, rest) ← key? steps rest
      return (part :: others, rest)
    | rest => return ([part], rest)

/-- Digits, with single underscores allowed between any two of them. -/
def digits? (isDigit : Char → Bool) : List Char → Option (List Char × List Char)
  | digit :: '_' :: next :: rest =>
    if isDigit digit && isDigit next then
      (digits? isDigit (next :: rest)).map fun (others, rest) => (digit :: others, rest)
    else if isDigit digit then some ([digit], '_' :: next :: rest)
    else none
  | digit :: rest =>
    if isDigit digit then
      match digits? isDigit rest with
      | some (others, rest) => some (digit :: others, rest)
      | none => some ([digit], rest)
    else none
  | [] => none

def decimal? : List Char → Option (List Char × List Char)
  | '0' :: rest => some (['0'], rest)
  | text => digits? Char.isDigit text

def sign : List Char → Bool × List Char
  | '+' :: rest => (false, rest)
  | '-' :: rest => (true, rest)
  | text => (false, text)

def valueOf (base : Nat) (digits : List Char) : Nat :=
  digits.foldl (fun value digit => base * value + (Text.hexDigit? digit).getD 0) 0

def integer? (negative : Bool) (magnitude : Nat) : Option Value :=
  let value : Int := if negative then -magnitude else magnitude
  if -0x8000000000000000 ≤ value ∧ value < 0x8000000000000000 then some (.integer value) else none

def basedInteger? (base : Nat) (isDigit : Char → Bool) (text : List Char) :
    Option (Value × List Char) := do
  let (digits, rest) ← digits? isDigit text
  return (← integer? false (valueOf base digits), rest)

def exponent? : List Char → Option (Int × List Char)
  | mark :: rest =>
    if mark = 'e' ∨ mark = 'E' then do
      let (negative, rest) := sign rest
      let (digits, rest) ← digits? Char.isDigit rest
      let value : Int := valueOf 10 digits
      return (if negative then -value else value, rest)
    else some (0, mark :: rest)
  | [] => some (0, [])

/-- A floating-point number; those above the range of floating point are refused. -/
def float? (negative : Bool) (whole fraction : List Char) (exponent : Int) : Option Value :=
  let value := Decimal.ofDigits negative whole fraction exponent
  if value == 1.0 / 0.0 then none else some (.float value)

/-- A decimal number behind its sign: with a point or an exponent it is a floating-point number. -/
def decimalNumber? (negative : Bool) (text : List Char) : Option (Value × List Char) := do
  let (whole, rest) ← decimal? text
  match rest with
  | '.' :: rest => do
    let (fraction, rest) ← digits? Char.isDigit rest
    let (exponent, rest) ← exponent? rest
    return (← float? negative whole fraction exponent, rest)
  | mark :: _ =>
    if mark = 'e' ∨ mark = 'E' then do
      let (exponent, rest) ← exponent? rest
      return (← float? negative whole [] exponent, rest)
    else return (← integer? negative (valueOf 10 whole), rest)
  | [] => return (← integer? negative (valueOf 10 whole), rest)

def number? (text : List Char) : Option (Value × List Char) :=
  match text with
  | '0' :: 'x' :: rest => basedInteger? 16 (fun digit => (Text.hexDigit? digit).isSome) rest
  | '0' :: 'o' :: rest => basedInteger? 8 (fun digit => '0' ≤ digit && digit ≤ '7') rest
  | '0' :: 'b' :: rest => basedInteger? 2 (fun digit => digit == '0' || digit == '1') rest
  | _ =>
    let (negative, rest) := sign text
    match rest with
    | 'i' :: 'n' :: 'f' :: rest =>
      some (.float (if negative then -1.0 / 0.0 else 1.0 / 0.0), rest)
    | 'n' :: 'a' :: 'n' :: rest => some (.float (0.0 / 0.0), rest)
    | _ => decimalNumber? negative rest

def field? (count least greatest : Nat) (text : List Char) : Option (Nat × List Char) :=
  let digits := text.take count
  let value := valueOf 10 digits
  if digits.length = count ∧ digits.all Char.isDigit ∧ least ≤ value ∧ value ≤ greatest then
    some (value, text.drop count)
  else none

def behind? (character : Char) : List Char → Option (List Char)
  | first :: rest => if first = character then some rest else none
  | [] => none

def daysOf (year month : Nat) : Nat :=
  if month = 2 then
    if year % 4 = 0 ∧ (year % 100 ≠ 0 ∨ year % 400 = 0) then 29 else 28
  else if month = 4 ∨ month = 6 ∨ month = 9 ∨ month = 11 then 30
  else 31

def date? (text : List Char) : Option (List Char) := do
  let (year, rest) ← field? 4 0 9999 text
  let (month, rest) ← field? 2 1 12 (← behind? '-' rest)
  let (_, rest) ← field? 2 1 (daysOf year month) (← behind? '-' rest)
  return rest

def time? (text : List Char) : Option (List Char) := do
  let (_, rest) ← field? 2 0 23 text
  let (_, rest) ← field? 2 0 59 (← behind? ':' rest)
  let (_, rest) ← field? 2 0 60 (← behind? ':' rest)
  match rest with
  | '.' :: digit :: rest =>
    if digit.isDigit then return rest.dropWhile Char.isDigit else return '.' :: digit :: rest
  | _ => return rest

def skipOffset (text : List Char) : List Char :=
  match text with
  | 'Z' :: rest => rest
  | 'z' :: rest => rest
  | mark :: rest =>
    if mark = '+' ∨ mark = '-' then
      (do
        let (_, rest) ← field? 2 0 23 rest
        let (_, rest) ← field? 2 0 59 (← behind? ':' rest)
        return rest).getD text
    else text
  | [] => []

def dateTime? (text : List Char) : Option (Value × List Char) :=
  match date? text with
  | none => (time? text).map fun rest => (.dateTime, rest)
  | some rest =>
    match rest with
    | separator :: later =>
      if separator = 'T' ∨ separator = 't' ∨ separator = ' ' then
        match time? later with
        | some rest => some (.dateTime, skipOffset rest)
        | none => some (.dateTime, rest)
      else some (.dateTime, rest)
    | [] => some (.dateTime, rest)

def scalar? (text : List Char) : Option (Value × List Char) :=
  match text with
  | '"' :: _ => (string? text).map fun (content, rest) => (.string content, rest)
  | '\'' :: _ => (string? text).map fun (content, rest) => (.string content, rest)
  | 't' :: 'r' :: 'u' :: 'e' :: rest => some (.boolean true, rest)
  | 'f' :: 'a' :: 'l' :: 's' :: 'e' :: rest => some (.boolean false, rest)
  | _ =>
    match dateTime? text with
    | some reading => some reading
    | none => number? text

end LabelPlacement.Toml
