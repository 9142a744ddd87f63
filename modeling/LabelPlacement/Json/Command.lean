import LabelPlacement.Json.Names
import LabelPlacement.Sequence.Basic
/-!
The written form of commands and sequences.

A command is written with its kind as tag.  Reading accepts every parameter value that fits its
type; the checks made when a command is built are not made again.
-/

namespace LabelPlacement

variable {α : Type}

section
variable [Scalar α]

def Element.toJson : Element → Json α
  | .textComponent name => .tagged "TextComponent" (.string name)
  | .symbolComponent name => .tagged "SymbolComponent" (.string name)
  | .textObject name => .tagged "TextObject" (.string name)
  | .stackLevel level => .tagged "StackLevel" (.ofNatural level)

def Element.ofJson? (json : Json α) : Option Element := do
  match ← json.untag? with
  | ("TextComponent", content) => return .textComponent (← content.string?)
  | ("SymbolComponent", content) => return .symbolComponent (← content.string?)
  | ("TextObject", content) => return .textObject (← content.string?)
  | ("StackLevel", content) => return .stackLevel (← content.natural? 32)
  | _ => none

def HideGroup.toJson (group : HideGroup) : Json α :=
  .object [("kind", .ofNamed group.kind), ("targets", .ofList Element.toJson group.targets)]

def HideGroup.ofJson? (json : Json α) : Option HideGroup := do
  let fields ← json.fields? ["kind", "targets"]
  return {
    kind := ← Json.required? "kind" Json.named? fields
    targets := ← Json.required? "targets" (Json.list? Element.ofJson?) fields }

def HideAttempt.toJson (attempt : HideAttempt) : Json α :=
  .object [("groups", .ofList HideGroup.toJson attempt.groups)]

def HideAttempt.ofJson? (json : Json α) : Option HideAttempt := do
  let fields ← json.fields? ["groups"]
  return { groups := ← Json.required? "groups" (Json.list? HideGroup.ofJson?) fields }

def attemptsToJson (attempts : List HideAttempt) : Json α :=
  .object [("attempts", .ofList HideAttempt.toJson attempts)]

def attemptsOfJson? (json : Json α) : Option (List HideAttempt) := do
  Json.required? "attempts" (Json.list? HideAttempt.ofJson?) (← json.fields? ["attempts"])

namespace LinePosition

def toJson (position : LinePosition α) : Json α :=
  .object [("value", .ofNumber position.value), ("unit", .ofNamed position.unit)]

def ofJson? (json : Json α) : Option (LinePosition α) := do
  let fields ← json.fields? ["value", "unit"]
  return {
    value := ← Json.required? "value" Json.number? fields
    unit := ← Json.required? "unit" Json.named? fields }

end LinePosition

namespace LinePlacement

def toJson (placement : LinePlacement α) : Json α :=
  .object [
    ("place_where", .ofNamed placement.side),
    ("initial_position", placement.initial.toJson),
    ("min_position", placement.minimum.toJson),
    ("max_position", placement.maximum.toJson)]

def ofJson? (json : Json α) : Option (LinePlacement α) := do
  let fields ← json.fields? ["place_where", "initial_position", "min_position", "max_position"]
  return {
    side := ← Json.required? "place_where" Json.named? fields
    initial := ← Json.required? "initial_position" LinePosition.ofJson? fields
    minimum := ← Json.required? "min_position" LinePosition.ofJson? fields
    maximum := ← Json.required? "max_position" LinePosition.ofJson? fields }

end LinePlacement

namespace PointPlacement

def toJson (placement : PointPlacement α) : Json α :=
  .object [
    ("positions", .ofList Json.ofNamed placement.positions), ("angle", .ofNumber placement.angle)]

def ofJson? (json : Json α) : Option (PointPlacement α) := do
  let fields ← json.fields? ["positions", "angle"]
  return {
    positions := ← Json.required? "positions" (Json.list? Json.named?) fields
    angle := ← Json.required? "angle" Json.number? fields }

end PointPlacement

namespace AreaPlacement

def toJson (placement : AreaPlacement α) : Json α :=
  .object [("place_how", .ofNamed placement.strategy), ("angle", .ofNumber placement.angle)]

def ofJson? (json : Json α) : Option (AreaPlacement α) := do
  let fields ← json.fields? ["place_how", "angle"]
  return {
    strategy := ← Json.required? "place_how" Json.named? fields
    angle := ← Json.required? "angle" Json.number? fields }

end AreaPlacement

namespace LeaderPlacement

def toJson (placement : LeaderPlacement α) : Json α :=
  .object [
    ("timing", .ofNamed placement.timing),
    ("max_length", .ofOption Json.ofNumber placement.maxLength)]

def ofJson? (json : Json α) : Option (LeaderPlacement α) := do
  let fields ← json.fields? ["timing", "max_length"]
  return {
    timing := ← Json.required? "timing" Json.named? fields
    maxLength := ← Json.optional? "max_length" Json.number? fields }

end LeaderPlacement

namespace FailureAction

def toJson (action : FailureAction) : Json α := .object [("action", .ofNamed action)]

def ofJson? (json : Json α) : Option FailureAction := do
  Json.required? "action" Json.named? (← json.fields? ["action"])

end FailureAction

namespace LoopKind

def jsonTag : LoopKind α → String
  | .relax .offset => "Offset"
  | .relax (.overhang _) => "Overhang"
  | .relax .overline => "Overline"
  | .relax .overregion => "Overregion"
  | .relax .bump => "Bump"
  | .bufferSize .. => "BufferSize"
  | .fontSize .. => "FontSize"
  | .stack .. => "Stack"
  | .hide _ => "Hide"

def jsonFields : LoopKind α → List (String × Json α)
  | .relax (.overhang amount) => [("overhang_amount", .ofNumber amount)]
  | .relax _ => []
  | .bufferSize buffer steps action =>
    [("buffer_type", .ofNamed buffer), ("num_buffer_steps", .ofNatural steps),
      ("action", .ofNamed action)]
  | .fontSize steps percent action =>
    [("num_font_steps", .ofNatural steps), ("reduction_percent", .ofNumber percent),
      ("action", .ofNamed action)]
  | .stack lines action =>
    [("max_number_of_lines", .ofNatural lines), ("action", .ofNamed action)]
  | .hide attempts => [("attempts", attemptsToJson attempts)]

def jsonNames? : String → Option (List String)
  | "Offset" | "Overline" | "Overregion" | "Bump" => some []
  | "Overhang" => some ["overhang_amount"]
  | "BufferSize" => some ["buffer_type", "num_buffer_steps", "action"]
  | "FontSize" => some ["num_font_steps", "reduction_percent", "action"]
  | "Stack" => some ["max_number_of_lines", "action"]
  | "Hide" => some ["attempts"]
  | _ => none

def ofFields? (tag : String) (fields : List (String × Json α)) : Option (LoopKind α) :=
  match tag with
  | "Offset" => some (.relax .offset)
  | "Overhang" => do
    return .relax (.overhang (← Json.required? "overhang_amount" Json.number? fields))
  | "Overline" => some (.relax .overline)
  | "Overregion" => some (.relax .overregion)
  | "Bump" => some (.relax .bump)
  | "BufferSize" => do
    return .bufferSize
      (← Json.required? "buffer_type" Json.named? fields)
      (← Json.required? "num_buffer_steps" (Json.natural? 32) fields)
      (← Json.required? "action" Json.named? fields)
  | "FontSize" => do
    return .fontSize
      (← Json.required? "num_font_steps" (Json.natural? 32) fields)
      (← Json.required? "reduction_percent" Json.number? fields)
      (← Json.required? "action" Json.named? fields)
  | "Stack" => do
    return .stack
      (← Json.required? "max_number_of_lines" (Json.natural? 32) fields)
      (← Json.required? "action" Json.named? fields)
  | "Hide" => do return .hide (← Json.required? "attempts" attemptsOfJson? fields)
  | _ => none

end LoopKind

namespace Loop

def toJson (loop : Loop α) : Json α :=
  .tagged loop.kind.jsonTag
    (.object (loop.kind.jsonFields ++ [("where_to_loop", .ofOption Json.ofNatural loop.target)]))

def ofJson? (tag : String) (content : Json α) : Option (Loop α) := do
  let names ← LoopKind.jsonNames? tag
  let fields ← content.fields? (names ++ ["where_to_loop"])
  return {
    kind := ← LoopKind.ofFields? tag fields
    target := ← Json.optional? "where_to_loop" (Json.natural? 64) fields }

end Loop

namespace Command

def toJson : Command α → Json α
  | .line placement => .tagged "LinePlacement" placement.toJson
  | .point placement => .tagged "PointPlacement" placement.toJson
  | .area placement => .tagged "AreaPlacement" placement.toJson
  | .leader placement => .tagged "Leader" placement.toJson
  | .failure action => .tagged "Failure" action.toJson
  | .loop found => found.toJson

def ofJson? (json : Json α) : Option (Command α) := do
  match ← json.untag? with
  | ("LinePlacement", content) => return .line (← LinePlacement.ofJson? content)
  | ("PointPlacement", content) => return .point (← PointPlacement.ofJson? content)
  | ("AreaPlacement", content) => return .area (← AreaPlacement.ofJson? content)
  | ("Leader", content) => return .leader (← LeaderPlacement.ofJson? content)
  | ("Failure", content) => return .failure (← FailureAction.ofJson? content)
  | (tag, content) => return .loop (← Loop.ofJson? tag content)

end Command

namespace Sequence

def entryToJson (entry : Entry α) : Json α :=
  .object [("id", .ofNatural entry.id), ("command", entry.command.toJson)]

def entryOfJson? (json : Json α) : Option (Entry α) := do
  let fields ← json.fields? ["id", "command"]
  return {
    id := ← Json.required? "id" (Json.natural? 64) fields
    command := ← Json.required? "command" Command.ofJson? fields }

def toJson (sequence : Sequence α) : Json α :=
  .object [
    ("entries", .ofList entryToJson sequence.entries),
    ("next_command_id", .ofNatural sequence.nextId)]

def ofJson? (json : Json α) : Option (Sequence α) := do
  let fields ← json.fields? ["entries", "next_command_id"]
  return {
    entries := ← Json.required? "entries" (Json.list? entryOfJson?) fields
    nextId := ← Json.required? "next_command_id" (Json.natural? 64) fields }

end Sequence

end

end LabelPlacement
