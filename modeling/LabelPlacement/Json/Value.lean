import LabelPlacement.Command.Build
/-!
JSON values, and reading them as numbers, texts, lists and records.

Numbers are already read: an integer, or a number of the scalar type.  An object that stands for a
record may hold fields the record does not know; an array may stand for a record too, with all
fields in order.  The values of an enumeration are written by name.
-/

namespace LabelPlacement

inductive Json (α : Type)
  | null
  | bool (value : Bool)
  | integer (value : Int)
  | number (value : α)
  | string (value : String)
  | array (items : List (Json α))
  | object (fields : List (String × Json α))

class Named (ι : Type) where
  all : List ι
  name : ι → String

def Named.ofName? {ι : Type} [Named ι] (name : String) : Option ι :=
  (Named.all : List ι).find? (Named.name · == name)

namespace Json

variable {α ι : Type}

def fields? (names : List String) : Json α → Option (List (String × Json α))
  | object fields => some fields
  | array items => if items.length = names.length then some (names.zip items) else none
  | _ => none

def required? (name : String) (decode? : Json α → Option ι) (fields : List (String × Json α)) :
    Option ι :=
  (fields.lookup name).bind decode?

def default? (name : String) (value : ι) (decode? : Json α → Option ι)
    (fields : List (String × Json α)) : Option ι :=
  match fields.lookup name with
  | none => some value
  | some json => decode? json

def nullable? (decode? : Json α → Option ι) : Json α → Option (Option ι)
  | null => some none
  | json => (decode? json).map some

/-- A field whose value may be absent; leaving it out says so too. -/
def optional? (name : String) (decode? : Json α → Option ι) (fields : List (String × Json α)) :
    Option (Option ι) :=
  default? name none (nullable? decode?) fields

def ofOption (encode : ι → Json α) : Option ι → Json α
  | none => null
  | some value => encode value

def ofList (encode : ι → Json α) (values : List ι) : Json α := array (values.map encode)

def list? (decode? : Json α → Option ι) : Json α → Option (List ι)
  | array items => items.mapM decode?
  | _ => none

def bool? : Json α → Option Bool
  | bool value => some value
  | _ => none

def string? : Json α → Option String
  | string value => some value
  | _ => none

def integer? (least greatest : Int) : Json α → Option Int
  | integer value => if least ≤ value ∧ value ≤ greatest then some value else none
  | _ => none

def natural? (bits : Nat) (json : Json α) : Option Nat :=
  (integer? 0 (Int.ofNat (Nat.pow 2 bits - 1)) json).map Int.toNat

def ofNatural (value : Nat) : Json α := integer value

def number? [Scalar α] : Json α → Option α
  | number value => some value
  | integer value => some (Scalar.ofInt value)
  | _ => none

/-- The written form of a number; infinite and undefined ones have none. -/
def ofNumber [Scalar α] (value : α) : Json α := if Scalar.isFinite value then number value else null

def ofNamed [Named ι] (value : ι) : Json α := string (Named.name value)

/-- Reads a value of an enumeration: its name, or an object of the name alone. -/
def named? [Named ι] : Json α → Option ι
  | string name => Named.ofName? name
  | object [(name, null)] => Named.ofName? name
  | _ => none

def tagged (tag : String) (json : Json α) : Json α := object [(tag, json)]

def untag? : Json α → Option (String × Json α)
  | object [field] => some field
  | _ => none

end Json

end LabelPlacement
