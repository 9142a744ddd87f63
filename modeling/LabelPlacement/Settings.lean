import LabelPlacement.Map
import LabelPlacement.Scalar.Binary64
import LabelPlacement.Toml.Document
/-!
Settings of a labelling run, read from a TOML document, and where that document is looked for.

Everything that a document leaves out has a standard value, and what it says beyond the known
settings is ignored.  Only a value of the wrong type is refused.
-/

namespace LabelPlacement

structure PlacementSettings where
  pointOffset : Float := 1.0
  lineSearchStep : Float := 0.25
  leaderMaxLength : Float := 30.0
  leaderStep : Float := 5.0
  minFontSize : Float := 1.0
  bufferSteps : Int := 2
  fontSteps : Int := 3
  fontReductionPercent : Float := 10.0
  maxStackLines : Int := 3

structure RunSettings where
  timeLimit : Option Nat := none
  deferredLeaders : Bool := true

structure Settings where
  logLevel : String := "info"
  placement : PlacementSettings := {}
  run : RunSettings := {}

inductive SettingsError
  | unreadable
  | malformed
  deriving BEq, DecidableEq

namespace Toml

def Value.string? : Value → Option String
  | .string text => some text
  | _ => none

def Value.boolean? : Value → Option Bool
  | .boolean value => some value
  | _ => none

def Value.integer? : Value → Option Int
  | .integer value => some value
  | _ => none

def Value.natural? : Value → Option Nat
  | .integer value => if 0 ≤ value then some value.toNat else none
  | _ => none

/-- A value as a floating-point number; an integer stands for one too. -/
def Value.float? : Value → Option Float
  | .float value => some value
  | .integer value => some (Scalar.ofInt value)
  | _ => none

/-- A value as a record with fields of the given names: a table, or an array of the values in order.
A date is a record too, with none of the fields. -/
def Value.record? (names : List String) : Value → Option Fields
  | .table _ fields => some fields
  | .dateTime => some []
  | .array items => some (names.zip items)
  | .tables latestFirst =>
    some (names.zip (latestFirst.reverse.map fun fields => .table .header fields))
  | _ => none

def Fields.getD {ι : Type} (fields : Fields) (name : String) (read? : Value → Option ι)
    (standard : ι) : Option ι :=
  match fields.lookup name with
  | none => some standard
  | some value => read? value

end Toml

namespace Settings

open Toml (Fields Value)

def logLevel? (section? : Value) : Option String := do
  let fields ← section?.record? ["level"]
  fields.getD "level" Value.string? "info"

def placement? (section? : Value) : Option PlacementSettings := do
  let fields ← section?.record?
    ["point_offset", "line_search_step", "leader_max_length", "leader_step", "min_font_size",
      "buffer_steps", "font_steps", "font_reduction_percent", "max_stack_lines"]
  let standard : PlacementSettings := {}
  return {
    pointOffset := ← fields.getD "point_offset" Value.float? standard.pointOffset
    lineSearchStep := ← fields.getD "line_search_step" Value.float? standard.lineSearchStep
    leaderMaxLength := ← fields.getD "leader_max_length" Value.float? standard.leaderMaxLength
    leaderStep := ← fields.getD "leader_step" Value.float? standard.leaderStep
    minFontSize := ← fields.getD "min_font_size" Value.float? standard.minFontSize
    bufferSteps := ← fields.getD "buffer_steps" Value.integer? standard.bufferSteps
    fontSteps := ← fields.getD "font_steps" Value.integer? standard.fontSteps
    fontReductionPercent :=
      ← fields.getD "font_reduction_percent" Value.float? standard.fontReductionPercent
    maxStackLines := ← fields.getD "max_stack_lines" Value.integer? standard.maxStackLines }

def run? (section? : Value) : Option RunSettings := do
  let fields ← section?.record? ["time_limit_ms", "deferred_leaders"]
  return {
    timeLimit := ← fields.getD "time_limit_ms" (fun value => value.natural?.map some) none
    deferredLeaders := ← fields.getD "deferred_leaders" Value.boolean? true }

def ofFields? (fields : Fields) : Option Settings := do
  return {
    logLevel := ← fields.getD "logging" logLevel? "info"
    placement := ← fields.getD "placement" placement? {}
    run := ← fields.getD "run" run? {} }

def ofText (text : String) : Except SettingsError Settings :=
  match (Toml.read? text).bind ofFields? with
  | some settings => .ok settings
  | none => .error .malformed

def ofFile : Option String → Except SettingsError Settings
  | none => .error .unreadable
  | some text => ofText text

/-- The settings of a file that has been named, or else of the standard file if there is one, or
else the standard settings.  A file that has been named has to be readable. -/
def discover (named : Option (Option String)) (standard : Option String) :
    Except SettingsError Settings :=
  match named, standard with
  | some file, _ => ofFile file
  | none, some text => ofText text
  | none, none => .ok {}

def placementOptions (settings : Settings) : PlacementOptions Float :=
  { PlacementOptions.standard with
      pointOffset := settings.placement.pointOffset
      lineSearchStep := settings.placement.lineSearchStep
      leaderMaxLength := settings.placement.leaderMaxLength
      leaderStep := settings.placement.leaderStep
      minFontSize := settings.placement.minFontSize }

def labelingOptions (settings : Settings) : LabelingOptions :=
  { timeLimit := settings.run.timeLimit, placesDeferredLeaders := settings.run.deferredLeaders }

end Settings

end LabelPlacement
