import LabelPlacement.Json.Command
import LabelPlacement.Label.Request
/-!
The written form of point symbols and label requests.

A symbol is written without the shape it may keep.
-/

namespace LabelPlacement

variable {α : Type} [Scalar α]

namespace Point

def toJson (point : Point α) : Json α := .array [.ofNumber point.x, .ofNumber point.y]

def ofJson? : Json α → Option (Point α)
  | .array [x, y] => do return ⟨← x.number?, ← y.number?⟩
  | _ => none

end Point

namespace Box

def toJson (box : Box α) : Json α :=
  .object [("min", box.lower.toJson), ("max", box.upper.toJson)]

def ofJson? (json : Json α) : Option (Box α) := do
  let fields ← json.fields? ["min", "max"]
  return {
    lower := ← Json.required? "min" Point.ofJson? fields
    upper := ← Json.required? "max" Point.ofJson? fields }

end Box

namespace Polygon

def toJson (polygon : Polygon α) : Json α :=
  .object [
    ("vertices", .ofList Point.toJson polygon.vertices), ("bounds", polygon.bounds.toJson)]

/-- Reads a polygon; its box is taken as it is written. -/
def ofJson? (json : Json α) : Option (Polygon α) := do
  let fields ← json.fields? ["vertices", "bounds"]
  return {
    vertices := ← Json.required? "vertices" (Json.list? Point.ofJson?) fields
    bounds := ← Json.required? "bounds" Box.ofJson? fields }

end Polygon

namespace Shape

def toJson : Shape α → Json α
  | .point position => .tagged "Point" position.toJson
  | .line points => .tagged "Line" (.ofList Point.toJson points)
  | .area polygon => .tagged "Area" polygon.toJson

def ofJson? (json : Json α) : Option (Shape α) := do
  match ← json.untag? with
  | ("Point", content) => return .point (← Point.ofJson? content)
  | ("Line", content) => return .line (← content.list? Point.ofJson?)
  | ("Area", content) => return .area (← Polygon.ofJson? content)
  | _ => none

end Shape

namespace PointSymbol

def toJson (symbol : PointSymbol α) : Json α :=
  .object [("outline", .ofList Polygon.toJson symbol.outline)]

def ofJson? (json : Json α) : Option (PointSymbol α) := do
  let fields ← json.fields? ["outline"]
  return {
    outline := ← Json.required? "outline" (Json.list? Polygon.ofJson?) fields
    cache := none }

end PointSymbol

namespace TextComponent

def toJson (component : TextComponent) : Json α :=
  .object [("name", .string component.name), ("text", .string component.text),
    ("hidden", .bool component.hidden)]

def ofJson? (json : Json α) : Option TextComponent := do
  let fields ← json.fields? ["name", "text", "hidden"]
  return {
    name := ← Json.required? "name" Json.string? fields
    text := ← Json.required? "text" Json.string? fields
    hidden := ← Json.default? "hidden" false Json.bool? fields }

end TextComponent

namespace TextObject

def toJson (object : TextObject) : Json α :=
  .object [("name", .string object.name),
    ("components", .ofList TextComponent.toJson object.components),
    ("hidden", .bool object.hidden)]

def ofJson? (json : Json α) : Option TextObject := do
  let fields ← json.fields? ["name", "components", "hidden"]
  return {
    name := ← Json.required? "name" Json.string? fields
    components := ← Json.required? "components" (Json.list? TextComponent.ofJson?) fields
    hidden := ← Json.default? "hidden" false Json.bool? fields }

end TextObject

namespace SymbolComponent

def toJson (symbol : SymbolComponent α) : Json α :=
  .object [("name", .string symbol.name), ("width", .ofNumber symbol.width),
    ("height", .ofNumber symbol.height), ("hidden", .bool symbol.hidden)]

def ofJson? (json : Json α) : Option (SymbolComponent α) := do
  let fields ← json.fields? ["name", "width", "height", "hidden"]
  return {
    name := ← Json.required? "name" Json.string? fields
    width := ← Json.required? "width" Json.number? fields
    height := ← Json.required? "height" Json.number? fields
    hidden := ← Json.default? "hidden" false Json.bool? fields }

end SymbolComponent

namespace Content

def toJson (content : Content α) : Json α :=
  .object [("text_objects", .ofList TextObject.toJson content.textObjects),
    ("symbols", .ofList SymbolComponent.toJson content.symbols)]

def ofJson? (json : Json α) : Option (Content α) := do
  let fields ← json.fields? ["text_objects", "symbols"]
  return {
    textObjects := ← Json.required? "text_objects" (Json.list? TextObject.ofJson?) fields
    symbols := ← Json.required? "symbols" (Json.list? SymbolComponent.ofJson?) fields }

end Content

namespace Buffers

def toJson (buffers : Buffers α) : Json α :=
  .object [("label", .ofNumber buffers.label), ("feature", .ofNumber buffers.feature)]

def ofJson? (json : Json α) : Option (Buffers α) := do
  let fields ← json.fields? ["label", "feature"]
  return {
    label := ← Json.required? "label" Json.number? fields
    feature := ← Json.required? "feature" Json.number? fields }

end Buffers

namespace Style

def toJson (style : Style α) : Json α :=
  .object [("font_size", .ofNumber style.fontSize), ("buffers", style.buffers.toJson)]

def ofJson? (json : Json α) : Option (Style α) := do
  let fields ← json.fields? ["font_size", "buffers"]
  return {
    fontSize := ← Json.required? "font_size" Json.number? fields
    buffers := ← Json.default? "buffers" Buffers.standard Buffers.ofJson? fields }

end Style

namespace Working

def toJson (working : Working α) : Json α :=
  .object [("font_size", .ofNumber working.fontSize), ("buffers", working.buffers.toJson),
    ("stack_lines", .ofNatural working.stackLines),
    ("hidden_levels", .ofList Json.ofNatural working.hiddenLevels)]

/-- Reads a working state; the hidden levels may come in any order. -/
def ofJson? (json : Json α) : Option (Working α) := do
  let fields ← json.fields? ["font_size", "buffers", "stack_lines", "hidden_levels"]
  let levels ← Json.required? "hidden_levels" (Json.list? (Json.natural? 32)) fields
  return {
    fontSize := ← Json.required? "font_size" Json.number? fields
    buffers := ← Json.required? "buffers" Buffers.ofJson? fields
    stackLines := ← Json.required? "stack_lines" (Json.natural? 64) fields
    hiddenLevels := levels.foldr insertLevel [] }

end Working

namespace LeaderLine

def toJson (leader : LeaderLine α) : Json α :=
  .object [("from", leader.start.toJson), ("to", leader.finish.toJson)]

def ofJson? (json : Json α) : Option (LeaderLine α) := do
  let fields ← json.fields? ["from", "to"]
  return {
    start := ← Json.required? "from" Point.ofJson? fields
    finish := ← Json.required? "to" Point.ofJson? fields }

end LeaderLine

namespace Corners

def toJson (corners : Corners α) : Json α := .ofList Point.toJson corners.toList

def ofJson? (json : Json α) : Option (Corners α) := do
  match ← json.list? Point.ofJson? with
  | [lowerLeft, lowerRight, upperRight, upperLeft] =>
    return { lowerLeft, lowerRight, upperRight, upperLeft }
  | _ => none

end Corners

namespace Placement

def toJson (placement : Placement α) : Json α :=
  .object [("corners", placement.corners.toJson), ("bounds", placement.bounds.toJson),
    ("angle", .ofNumber placement.angle), ("font_size", .ofNumber placement.fontSize),
    ("lines", .ofList Json.string placement.lines),
    ("hidden", .ofList Element.toJson placement.hidden),
    ("buffers", placement.buffers.toJson),
    ("leader", .ofOption LeaderLine.toJson placement.leader)]

def ofJson? (json : Json α) : Option (Placement α) := do
  let fields ← json.fields?
    ["corners", "bounds", "angle", "font_size", "lines", "hidden", "buffers", "leader"]
  return {
    corners := ← Json.required? "corners" Corners.ofJson? fields
    bounds := ← Json.required? "bounds" Box.ofJson? fields
    angle := ← Json.required? "angle" Json.number? fields
    fontSize := ← Json.required? "font_size" Json.number? fields
    lines := ← Json.required? "lines" (Json.list? Json.string?) fields
    hidden := ← Json.required? "hidden" (Json.list? Element.ofJson?) fields
    buffers := ← Json.required? "buffers" Buffers.ofJson? fields
    leader := ← Json.optional? "leader" LeaderLine.ofJson? fields }

end Placement

namespace Request

def toJson (request : Request α) : Json α :=
  .object [("id", .ofNatural request.id), ("feature", .ofNatural request.feature),
    ("label_class", .string request.labelClass), ("geometry", request.shape.toJson),
    ("symbol", .ofOption PointSymbol.toJson request.symbol),
    ("content", request.content.toJson), ("style", request.style.toJson),
    ("priority", .integer request.priority), ("working", request.working.toJson),
    ("state", .ofNamed request.status),
    ("placement", .ofOption Placement.toJson request.placement)]

def ofJson? (json : Json α) : Option (Request α) := do
  let fields ← json.fields?
    ["id", "feature", "label_class", "geometry", "symbol", "content", "style", "priority",
      "working", "state", "placement"]
  return {
    id := ← Json.required? "id" (Json.natural? 64) fields
    feature := ← Json.required? "feature" (Json.natural? 64) fields
    labelClass := ← Json.required? "label_class" Json.string? fields
    shape := ← Json.required? "geometry" Shape.ofJson? fields
    symbol := ← Json.optional? "symbol" PointSymbol.ofJson? fields
    content := ← Json.required? "content" Content.ofJson? fields
    style := ← Json.required? "style" Style.ofJson? fields
    priority := ← Json.required? "priority" (Json.integer? (-0x80000000) 0x7FFFFFFF) fields
    working := ← Json.required? "working" Working.ofJson? fields
    status := ← Json.required? "state" Json.named? fields
    placement := ← Json.optional? "placement" Placement.ofJson? fields }

end Request

end LabelPlacement
