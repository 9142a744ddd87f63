/-!
TOML documents as trees of tables.

A table remembers how it came to be, because that decides what may still be added to it: tables
named by a header of their own, tables implied by a longer header, tables made by dotted keys, and
inline tables.
-/

namespace LabelPlacement.Toml

inductive Origin
  | header
  | implied
  | dotted
  | inlined
  deriving BEq, DecidableEq

inductive Value
  | string (text : String)
  | integer (value : Int)
  | float (value : Float)
  | boolean (value : Bool)
  | dateTime
  | array (items : List Value)
  /-- A list of tables, each begun by a header in double brackets; the latest one is the first. -/
  | tables (latestFirst : List (List (String × Value)))
  | table (origin : Origin) (fields : List (String × Value))

abbrev Fields := List (String × Value)

inductive Statement
  | header (path : List String)
  | arrayHeader (path : List String)
  | assignment (path : List String) (value : Value)

namespace Fields

def put (key : String) (value : Value) : Fields → Fields
  | [] => [(key, value)]
  | (found, old) :: rest =>
    if found = key then (found, value) :: rest else (found, old) :: put key value rest

/-- Changes the fields of the table that a header path leads to.  Missing tables on the way are
implied; a list of tables leads to its latest one; other values lead nowhere. -/
def under (change : Fields → Option Fields) : (path : List String) → Fields → Option Fields
  | [], fields => change fields
  | key :: rest, fields =>
    match fields.lookup key with
    | none => (under change rest []).map fun inner => put key (.table .implied inner) fields
    | some (.table origin inner) =>
      if origin = .inlined then none
      else (under change rest inner).map fun inner => put key (.table origin inner) fields
    | some (.tables (latest :: earlier)) =>
      (under change rest latest).map fun latest => put key (.tables (latest :: earlier)) fields
    | some _ => none

/-- Begins the table of a key, which may have been implied before. -/
def beginTable (key : String) (fields : Fields) : Option Fields :=
  match fields.lookup key with
  | none => some (put key (.table .header []) fields)
  | some (.table .implied inner) => some (put key (.table .header inner) fields)
  | some _ => none

def beginArrayTable (key : String) (fields : Fields) : Option Fields :=
  match fields.lookup key with
  | none => some (put key (.tables [[]]) fields)
  | some (.tables latestFirst) => some (put key (.tables ([] :: latestFirst)) fields)
  | some _ => none

/-- Assigns a value to a dotted key.  Every key is assigned once; tables on the way are made by
dotted keys, and the innermost one must not have been made otherwise. -/
def assign (value : Value) : (path : List String) → Fields → Option Fields
  | [], _ => none
  | [key], fields =>
    match fields.lookup key with
    | none => some (put key value fields)
    | some _ => none
  | key :: next :: rest, fields =>
    match fields.lookup key with
    | none =>
      (assign value (next :: rest) []).map fun inner => put key (.table .dotted inner) fields
    | some (.table origin inner) =>
      if origin = .dotted ∨ origin = .implied ∧ !rest.isEmpty then
        (assign value (next :: rest) inner).map fun inner => put key (.table origin inner) fields
      else none
    | some (.tables (latest :: earlier)) =>
      if rest.isEmpty then none
      else
        (assign value (next :: rest) latest).map fun latest =>
          put key (.tables (latest :: earlier)) fields
    | some _ => none

/-- The fields of a document after one more statement; `current` is the path of the table that
assignments go to. -/
def perform (statement : Statement) (current : List String) (fields : Fields) :
    Option (List String × Fields) :=
  match statement with
  | .header path =>
    match path.getLast? with
    | none => none
    | some key => (under (beginTable key) path.dropLast fields).map fun fields => (path, fields)
  | .arrayHeader path =>
    match path.getLast? with
    | none => none
    | some key =>
      (under (beginArrayTable key) path.dropLast fields).map fun fields => (path, fields)
  | .assignment path value =>
    (under (assign value path) current fields).map fun fields => (current, fields)

def performAll : List Statement → (current : List String) → Fields → Option Fields
  | [], _, fields => some fields
  | statement :: rest, current, fields => do
    let (current, fields) ← perform statement current fields
    performAll rest current fields

def ofStatements (statements : List Statement) : Option Fields := performAll statements [] []

end Fields

end LabelPlacement.Toml
