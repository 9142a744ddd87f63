import LabelPlacement.Toml.Scalar
/-!
TOML documents: nested values, statements, and whole texts.
-/

namespace LabelPlacement.Toml

/-- Arrays and inline tables are nested less deeply, and keys have fewer parts, than this. -/
def nestingLimit : Nat := 80

def skipLines : (steps : Nat) → List Char → List Char
  | 0, text => text
  | steps + 1, text =>
    let text := skipComment (skipBlanks text)
    match newline? text with
    | some rest => skipLines steps rest
    | none => text

def path? (text : List Char) : Option (List String × List Char) := do
  let (path, rest) ← key? text.length text
  if path.length < nestingLimit then return (path, rest) else none

def items? (value? : List Char → Option (Value × List Char)) : (steps : Nat) → List Char →
    Option (List Value × List Char)
  | 0, _ => none
  | steps + 1, text =>
    match skipLines text.length text with
    | ']' :: rest => some ([], rest)
    | text => do
      let (value, rest) ← value? text
      match skipLines rest.length rest with
      | ',' :: rest => do
        let (others, rest) ← items? value? steps rest
        return (value :: others, rest)
      | ']' :: rest => return ([value], rest)
      | _ => none

/-- The assignments of an inline table up to its closing brace.  It stands on one line, and no comma
stands in front of the brace. -/
def pairs? (value? : List Char → Option (Value × List Char)) (fields : Fields) :
    (steps : Nat) → List Char → Option (Fields × List Char)
  | 0, _ => none
  | steps + 1, text => do
    let (path, rest) ← path? text
    let (value, rest) ← value? (skipBlanks (← behind? '=' rest))
    let fields ← fields.assign value path
    match skipBlanks rest with
    | ',' :: rest => pairs? value? fields steps rest
    | '}' :: rest => return (fields, rest)
    | _ => none

def value? : (depth : Nat) → List Char → Option (Value × List Char)
  | depth, '[' :: rest =>
    match depth with
    | 0 => none
    | depth + 1 => do
      let (items, rest) ← items? (value? depth) rest.length rest
      return (.array items, rest)
  | depth, '\x7b' :: rest =>
    match depth with
    | 0 => none
    | depth + 1 =>
      match skipBlanks rest with
      | '\x7d' :: rest => some (.table .inlined [], rest)
      | rest => do
        let (fields, rest) ← pairs? (value? depth) [] rest.length rest
        return (.table .inlined fields, rest)
  | _, text => scalar? text

def statement? (text : List Char) : Option (Statement × List Char) :=
  match text with
  | '[' :: '[' :: rest => do
    let (path, rest) ← path? rest
    return (.arrayHeader path, ← behind? ']' (← behind? ']' rest))
  | '[' :: rest => do
    let (path, rest) ← path? rest
    return (.header path, ← behind? ']' rest)
  | _ => do
    let (path, rest) ← path? text
    let (value, rest) ← value? (nestingLimit - 1) (skipBlanks (← behind? '=' rest))
    return (.assignment path value, rest)

def statements? : (steps : Nat) → List Char → Option (List Statement)
  | 0, _ => none
  | steps + 1, text =>
    match skipLines (text.length + 1) text with
    | [] => some []
    | text => do
      let (statement, rest) ← statement? text
      match skipComment (skipBlanks rest) with
      | [] => return [statement]
      | rest => return statement :: (← statements? steps (← newline? rest))

/-- The fields of the document that a text stands for; a byte order mark in front of it does not
count. -/
def read? (text : String) : Option Fields :=
  let characters :=
    match text.toList with
    | '\ufeff' :: rest => rest
    | characters => characters
  (statements? (characters.length + 1) characters).bind Fields.ofStatements

end LabelPlacement.Toml
