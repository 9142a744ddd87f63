import LabelPlacement.Proofs.Binary64
import LabelPlacement.Proofs.WrittenSequences

/-!
# Written requests

A request is written with all that is derived from it, and so is a symbol but for its shape. What is
read back is what was written if all its numbers are finite. The numbers that are given are; of the
derived ones, the box that a polygon keeps is not where the polygon has no vertices
(`Polygon.Made.isFinite_bounds_iff`), because the empty box reaches from one infinity to the other.
-/

namespace LabelPlacement

variable {α : Type} [Scalar α]

/-! ### Shapes -/

namespace Point

def IsFinite (point : Point α) : Prop := Scalar.isFinite point.x ∧ Scalar.isFinite point.y

instance : DecidablePred (IsFinite (α := α)) := fun point =>
  inferInstanceAs (Decidable (Scalar.isFinite point.x = true ∧ Scalar.isFinite point.y = true))

theorem ofJson?_toJson_iff {point : Point α} :
    ofJson? point.toJson = some point ↔ point.IsFinite := by
  constructor
  · intro hread
    obtain ⟨x, hx, hread⟩ := Option.bind_eq_some_iff.mp hread
    obtain ⟨y, hy, -⟩ := Option.bind_eq_some_iff.mp hread
    exact ⟨(Json.number?_ofNumber_eq_some_iff.mp hx).1, (Json.number?_ofNumber_eq_some_iff.mp hy).1⟩
  · rintro ⟨hx, hy⟩
    simp [ofJson?, toJson, Json.number?_ofNumber hx, Json.number?_ofNumber hy]

end Point

namespace Box

def IsFinite (box : Box α) : Prop := box.lower.IsFinite ∧ box.upper.IsFinite

instance : DecidablePred (IsFinite (α := α)) := fun box =>
  inferInstanceAs (Decidable (box.lower.IsFinite ∧ box.upper.IsFinite))

theorem ofJson?_toJson_iff {box : Box α} : ofJson? box.toJson = some box ↔ box.IsFinite := by
  constructor
  · intro hread
    obtain ⟨lower, hlower, hread⟩ := Option.bind_eq_some_iff.mp hread
    obtain ⟨upper, hupper, hread⟩ := Option.bind_eq_some_iff.mp hread
    obtain rfl := Option.some.inj hread
    exact ⟨Point.ofJson?_toJson_iff.mp hlower, Point.ofJson?_toJson_iff.mp hupper⟩
  · rintro ⟨hlower, hupper⟩
    rw [← Point.ofJson?_toJson_iff] at hlower hupper
    simp [ofJson?, toJson, hlower, hupper]

end Box

namespace Polygon

/-- The vertices are finite; the box that is kept need not be. -/
def IsFinite (polygon : Polygon α) : Prop := ∀ vertex ∈ polygon.vertices, vertex.IsFinite

instance : DecidablePred (IsFinite (α := α)) := fun polygon =>
  inferInstanceAs (Decidable (∀ vertex ∈ polygon.vertices, vertex.IsFinite))

theorem ofJson?_toJson_iff {polygon : Polygon α} (hfinite : polygon.IsFinite) :
    ofJson? polygon.toJson = some polygon ↔ polygon.bounds.IsFinite := by
  constructor
  · intro hread
    obtain ⟨vertices, hvertices, hread⟩ := Option.bind_eq_some_iff.mp hread
    obtain ⟨bounds, hbounds, hread⟩ := Option.bind_eq_some_iff.mp hread
    obtain rfl := Option.some.inj hread
    exact Box.ofJson?_toJson_iff.mp hbounds
  · intro hbounds
    rw [← Box.ofJson?_toJson_iff] at hbounds
    have hvertices : (Json.ofList Point.toJson polygon.vertices).list? Point.ofJson? =
        some polygon.vertices :=
      Json.list?_ofList fun vertex hmem => Point.ofJson?_toJson_iff.mpr (hfinite vertex hmem)
    simp [ofJson?, toJson, hbounds, hvertices]

end Polygon

/-- The boxes that polygons keep are finite. -/
def KeepsFinite (polygons : List (Polygon α)) : Prop :=
  ∀ polygon ∈ polygons, polygon.bounds.IsFinite

instance : DecidablePred (KeepsFinite (α := α)) := fun polygons =>
  inferInstanceAs (Decidable (∀ polygon ∈ polygons, polygon.bounds.IsFinite))

namespace PointSymbol

def IsFinite (symbol : PointSymbol α) : Prop := ∀ polygon ∈ symbol.outline, polygon.IsFinite

instance : DecidablePred (IsFinite (α := α)) := fun symbol =>
  inferInstanceAs (Decidable (∀ polygon ∈ symbol.outline, polygon.IsFinite))

/-- The symbol without the shape it may keep. -/
def withoutShape (symbol : PointSymbol α) : PointSymbol α := { symbol with cache := none }

theorem ofJson?_toJson_iff {symbol : PointSymbol α} (hfinite : symbol.IsFinite) :
    ofJson? symbol.toJson = some symbol.withoutShape ↔ KeepsFinite symbol.outline := by
  have houtline : (Json.ofList Polygon.toJson symbol.outline).list? Polygon.ofJson? =
      some symbol.outline ↔ KeepsFinite symbol.outline := by
    rw [Json.list?_ofList_iff]
    exact forall₂_congr fun polygon hmem => Polygon.ofJson?_toJson_iff (hfinite polygon hmem)
  rw [← houtline]
  simp [ofJson?, toJson, withoutShape, Option.bind_eq_some_iff]

end PointSymbol

namespace Shape

def IsFinite : Shape α → Prop
  | .point position => position.IsFinite
  | .line points => ∀ point ∈ points, point.IsFinite
  | .area polygon => polygon.IsFinite

instance : DecidablePred (IsFinite (α := α))
  | .point position => inferInstanceAs (Decidable position.IsFinite)
  | .line points => inferInstanceAs (Decidable (∀ point ∈ points, point.IsFinite))
  | .area polygon => inferInstanceAs (Decidable polygon.IsFinite)

/-- The polygons of the shape. -/
def polygons : Shape α → List (Polygon α)
  | .point _ | .line _ => []
  | .area polygon => [polygon]

theorem ofJson?_toJson_iff {shape : Shape α} (hfinite : shape.IsFinite) :
    ofJson? shape.toJson = some shape ↔ KeepsFinite shape.polygons := by
  cases shape with
  | point position =>
    have hposition := Point.ofJson?_toJson_iff.mpr hfinite
    simp [ofJson?, toJson, hposition, KeepsFinite, polygons]
  | line points =>
    have hpoints : (Json.ofList Point.toJson points).list? Point.ofJson? = some points :=
      Json.list?_ofList fun point hmem => Point.ofJson?_toJson_iff.mpr (hfinite point hmem)
    simp [ofJson?, toJson, hpoints, KeepsFinite, polygons]
  | area polygon =>
    have hpolygon := Polygon.ofJson?_toJson_iff hfinite
    simp [ofJson?, toJson, hpolygon, KeepsFinite, polygons, Option.bind_eq_some_iff]

end Shape

/-! ### Content and style -/

omit [Scalar α] in
theorem TextComponent.ofJson?_toJson (component : TextComponent) :
    ofJson? (component.toJson : Json α) = some component := by
  simp [ofJson?, toJson]

omit [Scalar α] in
theorem TextObject.ofJson?_toJson (object : TextObject) :
    ofJson? (object.toJson : Json α) = some object := by
  have hcomponents : (Json.ofList TextComponent.toJson object.components : Json α).list?
      TextComponent.ofJson? = some object.components :=
    Json.list?_ofList fun component _ => component.ofJson?_toJson
  simp [ofJson?, toJson, hcomponents]

namespace SymbolComponent

def IsFinite (symbol : SymbolComponent α) : Prop :=
  Scalar.isFinite symbol.width ∧ Scalar.isFinite symbol.height

instance : DecidablePred (IsFinite (α := α)) := fun symbol =>
  inferInstanceAs
    (Decidable (Scalar.isFinite symbol.width = true ∧ Scalar.isFinite symbol.height = true))

theorem ofJson?_toJson {symbol : SymbolComponent α} (hfinite : symbol.IsFinite) :
    ofJson? symbol.toJson = some symbol := by
  simp [ofJson?, toJson, Json.number?_ofNumber hfinite.1, Json.number?_ofNumber hfinite.2]

end SymbolComponent

namespace Content

def IsFinite (content : Content α) : Prop := ∀ symbol ∈ content.symbols, symbol.IsFinite

instance : DecidablePred (IsFinite (α := α)) := fun content =>
  inferInstanceAs (Decidable (∀ symbol ∈ content.symbols, symbol.IsFinite))

theorem ofJson?_toJson {content : Content α} (hfinite : content.IsFinite) :
    ofJson? content.toJson = some content := by
  have hobjects : (Json.ofList TextObject.toJson content.textObjects : Json α).list?
      TextObject.ofJson? = some content.textObjects :=
    Json.list?_ofList fun object _ => object.ofJson?_toJson
  have hsymbols : (Json.ofList SymbolComponent.toJson content.symbols).list?
      SymbolComponent.ofJson? = some content.symbols :=
    Json.list?_ofList fun symbol hmem => SymbolComponent.ofJson?_toJson (hfinite symbol hmem)
  simp [ofJson?, toJson, hobjects, hsymbols]

end Content

namespace Buffers

def IsFinite (buffers : Buffers α) : Prop :=
  Scalar.isFinite buffers.label ∧ Scalar.isFinite buffers.feature

instance : DecidablePred (IsFinite (α := α)) := fun buffers =>
  inferInstanceAs
    (Decidable (Scalar.isFinite buffers.label = true ∧ Scalar.isFinite buffers.feature = true))

theorem ofJson?_toJson {buffers : Buffers α} (hfinite : buffers.IsFinite) :
    ofJson? buffers.toJson = some buffers := by
  simp [ofJson?, toJson, Json.number?_ofNumber hfinite.1, Json.number?_ofNumber hfinite.2]

end Buffers

namespace Style

def IsFinite (style : Style α) : Prop :=
  Scalar.isFinite style.fontSize ∧ style.buffers.IsFinite

instance : DecidablePred (IsFinite (α := α)) := fun style =>
  inferInstanceAs (Decidable (Scalar.isFinite style.fontSize = true ∧ style.buffers.IsFinite))

theorem ofJson?_toJson {style : Style α} (hfinite : style.IsFinite) :
    ofJson? style.toJson = some style := by
  simp [ofJson?, toJson, Json.number?_ofNumber hfinite.1, Buffers.ofJson?_toJson hfinite.2]

end Style

/-! ### The state of a label -/

namespace Working

/-- Levels are numbers of 32 bits, and each of them is kept once, in increasing order. -/
def Fits (working : Working α) : Prop :=
  working.stackLines < 2 ^ 64 ∧ (∀ level ∈ working.hiddenLevels, level < 2 ^ 32) ∧
    working.hiddenLevels.Pairwise (· < ·)

instance : DecidablePred (Fits (α := α)) := fun working =>
  inferInstanceAs (Decidable (_ ∧ (∀ level ∈ working.hiddenLevels, level < 2 ^ 32) ∧
    working.hiddenLevels.Pairwise (· < ·)))

def IsFinite (working : Working α) : Prop :=
  Scalar.isFinite working.fontSize ∧ working.buffers.IsFinite

instance : DecidablePred (IsFinite (α := α)) := fun working =>
  inferInstanceAs (Decidable (Scalar.isFinite working.fontSize = true ∧ working.buffers.IsFinite))

theorem foldr_insertLevel {levels : List Nat} (hlevels : levels.Pairwise (· < ·)) :
    levels.foldr insertLevel [] = levels := by
  induction levels with
  | nil => rfl
  | cons first rest ih =>
    rw [List.pairwise_cons] at hlevels
    rw [List.foldr_cons, ih hlevels.2]
    cases rest with
    | nil => rfl
    | cons second others => rw [insertLevel, if_pos (hlevels.1 second List.mem_cons_self)]

theorem ofJson?_toJson {working : Working α} (hfits : working.Fits) (hfinite : working.IsFinite) :
    ofJson? working.toJson = some working := by
  obtain ⟨hlines, hbits, hlevels⟩ := hfits
  have hread : (Json.ofList Json.ofNatural working.hiddenLevels : Json α).list?
      (Json.natural? 32) = some working.hiddenLevels :=
    Json.list?_ofList fun level hmem => Json.natural?_ofNatural (hbits level hmem)
  simp [ofJson?, toJson, hread, Json.number?_ofNumber hfinite.1, Buffers.ofJson?_toJson hfinite.2,
    Json.natural?_ofNatural hlines, foldr_insertLevel hlevels]

end Working

namespace LeaderLine

def IsFinite (leader : LeaderLine α) : Prop := leader.start.IsFinite ∧ leader.finish.IsFinite

instance : DecidablePred (IsFinite (α := α)) := fun leader =>
  inferInstanceAs (Decidable (leader.start.IsFinite ∧ leader.finish.IsFinite))

theorem ofJson?_toJson {leader : LeaderLine α} (hfinite : leader.IsFinite) :
    ofJson? leader.toJson = some leader := by
  simp [ofJson?, toJson, Point.ofJson?_toJson_iff.mpr hfinite.1,
    Point.ofJson?_toJson_iff.mpr hfinite.2]

end LeaderLine

namespace Corners

def IsFinite (corners : Corners α) : Prop := ∀ corner ∈ corners.toList, corner.IsFinite

instance : DecidablePred (IsFinite (α := α)) := fun corners =>
  inferInstanceAs (Decidable (∀ corner ∈ corners.toList, corner.IsFinite))

theorem ofJson?_toJson {corners : Corners α} (hfinite : corners.IsFinite) :
    ofJson? corners.toJson = some corners := by
  have hread : (Json.ofList Point.toJson corners.toList).list? Point.ofJson? =
      some corners.toList :=
    Json.list?_ofList fun corner hmem => Point.ofJson?_toJson_iff.mpr (hfinite corner hmem)
  simp only [ofJson?, toJson, hread]
  rfl

end Corners

namespace Placement

def IsFinite (placement : Placement α) : Prop :=
  placement.corners.IsFinite ∧ placement.bounds.IsFinite ∧ Scalar.isFinite placement.angle ∧
    Scalar.isFinite placement.fontSize ∧ placement.buffers.IsFinite ∧
    ∀ leader ∈ placement.leader, leader.IsFinite

instance : DecidablePred (IsFinite (α := α)) := fun placement =>
  inferInstanceAs (Decidable (placement.corners.IsFinite ∧ placement.bounds.IsFinite ∧
    Scalar.isFinite placement.angle = true ∧ Scalar.isFinite placement.fontSize = true ∧
    placement.buffers.IsFinite ∧ ∀ leader ∈ placement.leader, leader.IsFinite))

theorem ofJson?_toJson {placement : Placement α}
    (hfits : ∀ element ∈ placement.hidden, element.Fits) (hfinite : placement.IsFinite) :
    ofJson? placement.toJson = some placement := by
  obtain ⟨hcorners, hbounds, hangle, hfont, hbuffers, hleader⟩ := hfinite
  have hlines : (Json.ofList Json.string placement.lines : Json α).list? Json.string? =
      some placement.lines :=
    Json.list?_ofList fun _ _ => rfl
  have hhidden : (Json.ofList Element.toJson placement.hidden : Json α).list? Element.ofJson? =
      some placement.hidden :=
    Json.list?_ofList fun element hmem => Element.ofJson?_toJson (hfits element hmem)
  have hleader : Json.nullable? LeaderLine.ofJson?
      (Json.ofOption LeaderLine.toJson placement.leader) = some placement.leader :=
    Json.nullable?_ofOption rfl fun leader hmem => LeaderLine.ofJson?_toJson (hleader leader hmem)
  simp [ofJson?, toJson, Corners.ofJson?_toJson hcorners, Box.ofJson?_toJson_iff.mpr hbounds,
    Json.number?_ofNumber hangle, Json.number?_ofNumber hfont, hlines, hhidden,
    Buffers.ofJson?_toJson hbuffers, hleader]

end Placement

/-! ### Requests -/

namespace Request

/-- Numbers of features and requests are of 64 bits, priorities of 32 with a sign. -/
def Fits (request : Request α) : Prop :=
  request.id < 2 ^ 64 ∧ request.feature < 2 ^ 64 ∧
    (-0x80000000 ≤ request.priority ∧ request.priority ≤ 0x7FFFFFFF) ∧ request.working.Fits ∧
    ∀ placement ∈ request.placement, ∀ element ∈ placement.hidden, element.Fits

/-- All numbers are finite, the boxes that polygons keep left aside. -/
def IsFinite (request : Request α) : Prop :=
  request.shape.IsFinite ∧ (∀ symbol ∈ request.symbol, symbol.IsFinite) ∧
    request.content.IsFinite ∧ request.style.IsFinite ∧ request.working.IsFinite ∧
    ∀ placement ∈ request.placement, placement.IsFinite

instance : DecidablePred (Fits (α := α)) := fun request =>
  inferInstanceAs (Decidable (_ ∧ _ ∧ (_ ∧ _) ∧ request.working.Fits ∧
    ∀ placement ∈ request.placement, ∀ element ∈ placement.hidden, element.Fits))

instance : DecidablePred (IsFinite (α := α)) := fun request =>
  inferInstanceAs (Decidable (request.shape.IsFinite ∧
    (∀ symbol ∈ request.symbol, symbol.IsFinite) ∧ request.content.IsFinite ∧
    request.style.IsFinite ∧ request.working.IsFinite ∧
    ∀ placement ∈ request.placement, placement.IsFinite))

/-- The polygons of the feature and of its symbol. -/
def polygons (request : Request α) : List (Polygon α) :=
  request.shape.polygons ++ request.symbol.elim [] PointSymbol.outline

/-- The request without the shape that its symbol may keep. -/
def withoutSymbolShape (request : Request α) : Request α :=
  { request with symbol := request.symbol.map PointSymbol.withoutShape }

theorem keepsFinite_polygons {request : Request α} :
    KeepsFinite request.polygons ↔
      KeepsFinite request.shape.polygons ∧
        ∀ symbol ∈ request.symbol, KeepsFinite symbol.outline := by
  rw [KeepsFinite, polygons, List.forall_mem_append]
  cases request.symbol <;> simp [KeepsFinite]

theorem nullable?_symbol_iff {symbol? : Option (PointSymbol α)}
    (hfinite : ∀ symbol ∈ symbol?, symbol.IsFinite) :
    Json.nullable? PointSymbol.ofJson? (Json.ofOption PointSymbol.toJson symbol?) =
        some (symbol?.map PointSymbol.withoutShape) ↔
      ∀ symbol ∈ symbol?, KeepsFinite symbol.outline := by
  cases symbol? with
  | none => simp [Json.ofOption, Json.nullable?]
  | some symbol =>
    have hsymbol := PointSymbol.ofJson?_toJson_iff (hfinite symbol rfl)
    change (PointSymbol.ofJson? symbol.toJson).map some = some (some symbol.withoutShape) ↔ _
    simp [hsymbol]

theorem ofJson?_toJson_iff {request : Request α} (hfits : request.Fits)
    (hfinite : request.IsFinite) :
    ofJson? request.toJson = some request.withoutSymbolShape ↔ KeepsFinite request.polygons := by
  obtain ⟨hid, hfeature, hpriority, hworkingFits, hhidden⟩ := hfits
  obtain ⟨hshape, hsymbol, hcontent, hstyle, hworking, hplacement⟩ := hfinite
  have hplacement : Json.nullable? Placement.ofJson?
      (Json.ofOption Placement.toJson request.placement) = some request.placement :=
    Json.nullable?_ofOption rfl fun placement hmem =>
      Placement.ofJson?_toJson (hhidden placement hmem) (hplacement placement hmem)
  -- All other fields are read back, so the shape and the symbol decide.
  have hread : ofJson? request.toJson =
      (Shape.ofJson? request.shape.toJson).bind fun shape =>
        (Json.nullable? PointSymbol.ofJson?
          (Json.ofOption PointSymbol.toJson request.symbol)).bind fun symbol =>
            some { request with shape, symbol } := by
    simp [ofJson?, toJson, Json.natural?_ofNatural hid, Json.natural?_ofNatural hfeature,
      Json.integer?_integer hpriority.1 hpriority.2, Content.ofJson?_toJson hcontent,
      Style.ofJson?_toJson hstyle, Working.ofJson?_toJson hworkingFits hworking, hplacement]
  rw [keepsFinite_polygons, ← Shape.ofJson?_toJson_iff hshape, ← nullable?_symbol_iff hsymbol,
    hread]
  simp [withoutSymbolShape, Option.bind_eq_some_iff]

end Request

/-! ### The boxes that polygons keep -/

/-- The coordinates are numbers, infinite ones included. -/
def Point.IsDefined (point : Point α) : Prop := point.x ≤ point.x ∧ point.y ≤ point.y

namespace Binary64

theorem defined_of_isFinite {number : Float} (hfinite : Scalar.isFinite number = true) :
    number ≤ number := by
  obtain hundefined | ⟨value, hvalue⟩ := notANumber_or_stands number
  · change number.toModel.unpack.isFinite = true at hfinite
    rw [hundefined] at hfinite
    cases hfinite
  · exact hvalue.defined

theorem defined_of_add {number shift : Float} (hsum : number + shift ≤ number + shift) :
    number ≤ number := by
  obtain ⟨sum, hsum⟩ := stands_of_defined hsum
  obtain ⟨value, _, hvalue, -⟩ := stands_of_add hsum
  exact hvalue.defined

/-- Rounding keeps the order of two numbers that are moved by the same distance. -/
theorem add_le_add_of_le {low high shift : Float} (hle : low ≤ high)
    (hlow : low + shift ≤ low + shift) (hhigh : high + shift ≤ high + shift) :
    low + shift ≤ high + shift := by
  obtain ⟨sum, hsum⟩ := stands_of_defined hlow
  obtain ⟨sum', hsum'⟩ := stands_of_defined hhigh
  obtain ⟨small, distance, hsmall, hdistance, hcancel⟩ := stands_of_add hsum
  obtain ⟨large, distance', hlarge, hdistance', hcancel'⟩ := stands_of_add hsum'
  obtain rfl := hdistance.unique hdistance'
  rw [(hsmall.add hdistance hcancel).le_iff (hlarge.add hdistance hcancel')]
  exact settledUnits_mono (Int.add_le_add_right ((hsmall.le_iff hlarge).mp hle) distance)

end Binary64

namespace Box

/-- The box has a point on each of its sides, and its corners are in order. -/
structure Touches (box : Box Float) (points : List (Point Float)) : Prop where
  width : box.lower.x ≤ box.upper.x
  height : box.lower.y ≤ box.upper.y
  left : ∃ point ∈ points, point.x = box.lower.x
  right : ∃ point ∈ points, point.x = box.upper.x
  below : ∃ point ∈ points, point.y = box.lower.y
  above : ∃ point ∈ points, point.y = box.upper.y

variable {box : Box Float} {points : List (Point Float)}

theorem isEmpty_empty_binary : (empty : Box Float).isEmpty = true := by decide

theorem Touches.isEmpty_eq (htouches : box.Touches points) : box.isEmpty = false := by
  rw [isEmpty, Bool.or_eq_false_iff, decide_eq_false_iff_not, decide_eq_false_iff_not]
  exact ⟨fun hlt => (LawfulScalar.lt_iff.mp hlt).2 htouches.width,
    fun hlt => (LawfulScalar.lt_iff.mp hlt).2 htouches.height⟩

theorem Touches.isFinite (htouches : box.Touches points)
    (hfinite : ∀ point ∈ points, point.IsFinite) : box.IsFinite := by
  obtain ⟨left, hleft, hleftEq⟩ := htouches.left
  obtain ⟨right, hright, hrightEq⟩ := htouches.right
  obtain ⟨below, hbelow, hbelowEq⟩ := htouches.below
  obtain ⟨above, habove, haboveEq⟩ := htouches.above
  rw [IsFinite, Point.IsFinite, Point.IsFinite, ← hleftEq, ← hrightEq, ← hbelowEq, ← haboveEq]
  exact ⟨⟨(hfinite left hleft).1, (hfinite below hbelow).2⟩,
    (hfinite right hright).1, (hfinite above habove).2⟩

/-- The box around no points is empty; any other one touches its points. -/
def Surrounds (box : Box Float) (points : List (Point Float)) : Prop :=
  points = [] ∧ box = empty ∨ box.Touches points

theorem Surrounds.enclose (hsurrounds : box.Surrounds points) {point : Point Float}
    (hdefined : point.IsDefined) : (box.enclose point).Touches (points ++ [point]) := by
  have hlast : point ∈ points ++ [point] := List.mem_append_right _ (List.mem_singleton_self point)
  obtain ⟨rfl, rfl⟩ | htouches := hsurrounds
  · -- The first point makes a box of its own: the infinite sides do not take part.
    rw [Box.enclose, if_pos isEmpty_empty_binary]
    exact ⟨hdefined.1, hdefined.2, ⟨point, hlast, rfl⟩, ⟨point, hlast, rfl⟩, ⟨point, hlast, rfl⟩,
      ⟨point, hlast, rfl⟩⟩
  · have horder : ∀ {low high value : Float}, low ≤ high → value ≤ value →
        (if low < value then low else value) ≤ (if value < high then high else value) := by
      intro low high value hle hvalue
      split
      · rename_i hlow
        split
        · exact hle
        · exact (LawfulScalar.lt_iff.mp hlow).1
      · split
        · rename_i hhigh
          exact (LawfulScalar.lt_iff.mp hhigh).1
        · exact hvalue
    have hside : ∀ {coordinate : Point Float → Float} {value chosen : Float},
        (∃ other ∈ points, coordinate other = value) → chosen = value ∨ chosen = coordinate point →
        ∃ other ∈ points ++ [point], coordinate other = chosen := by
      rintro coordinate value chosen ⟨other, hother, rfl⟩ (rfl | rfl)
      · exact ⟨other, List.mem_append_left _ hother, rfl⟩
      · exact ⟨point, hlast, rfl⟩
    have hchoice : ∀ (chosen : Prop) [Decidable chosen] (first second : Float),
        (if chosen then first else second) = first ∨ (if chosen then first else second) = second :=
      fun chosen _ first second => ite_eq_or_eq chosen first second
    rw [Box.enclose, htouches.isEmpty_eq, if_neg Bool.false_ne_true]
    exact ⟨horder htouches.width hdefined.1, horder htouches.height hdefined.2,
      hside htouches.left (hchoice _ _ _), hside htouches.right (hchoice _ _ _),
      hside htouches.below (hchoice _ _ _), hside htouches.above (hchoice _ _ _)⟩

theorem surrounds_ofPoints (hdefined : ∀ point ∈ points, point.IsDefined) :
    (ofPoints points).Surrounds points := by
  induction points using List.reverseRecOn with
  | nil => exact Or.inl ⟨rfl, rfl⟩
  | append_singleton points point ih =>
    rw [ofPoints, List.foldl_append]
    refine Or.inr ((ih fun other hother => ?_).enclose ?_)
    · exact hdefined other (List.mem_append_left _ hother)
    · exact hdefined point (List.mem_append_right _ (List.mem_singleton_self point))

theorem Surrounds.translated (hsurrounds : box.Surrounds points) {displacement : Displacement Float}
    (hdefined : ∀ point ∈ points, (point.translate displacement).IsDefined) :
    (box.translated displacement).Surrounds (points.map (·.translate displacement)) := by
  obtain ⟨rfl, rfl⟩ | htouches := hsurrounds
  · rw [Box.translated, if_pos isEmpty_empty_binary]
    exact Or.inl ⟨rfl, rfl⟩
  · rw [Box.translated, htouches.isEmpty_eq, if_neg Bool.false_ne_true]
    obtain ⟨left, hleft, hleftEq⟩ := htouches.left
    obtain ⟨right, hright, hrightEq⟩ := htouches.right
    obtain ⟨below, hbelow, hbelowEq⟩ := htouches.below
    obtain ⟨above, habove, haboveEq⟩ := htouches.above
    have hlow : (box.lower.translate displacement).IsDefined := by
      rw [Point.IsDefined, Point.translate, ← hleftEq, ← hbelowEq]
      exact ⟨(hdefined left hleft).1, (hdefined below hbelow).2⟩
    have hhigh : (box.upper.translate displacement).IsDefined := by
      rw [Point.IsDefined, Point.translate, ← hrightEq, ← haboveEq]
      exact ⟨(hdefined right hright).1, (hdefined above habove).2⟩
    refine Or.inr ⟨Binary64.add_le_add_of_le htouches.width hlow.1 hhigh.1,
      Binary64.add_le_add_of_le htouches.height hlow.2 hhigh.2, ?_, ?_, ?_, ?_⟩
    · exact ⟨_, List.mem_map_of_mem hleft, congrArg (· + displacement.x) hleftEq⟩
    · exact ⟨_, List.mem_map_of_mem hright, congrArg (· + displacement.x) hrightEq⟩
    · exact ⟨_, List.mem_map_of_mem hbelow, congrArg (· + displacement.y) hbelowEq⟩
    · exact ⟨_, List.mem_map_of_mem habove, congrArg (· + displacement.y) haboveEq⟩

end Box

namespace Polygon

/-- Polygons that are made of vertices, and then moved and turned and given fresh boxes. -/
inductive Made : Polygon Float → Prop
  | ofVertices (vertices : List (Point Float)) : Made (.ofVertices vertices)
  | withFreshBounds {polygon : Polygon Float} (hmade : Made polygon) : Made polygon.withFreshBounds
  | translate {polygon : Polygon Float} (hmade : Made polygon) (displacement : Displacement Float) :
      Made (polygon.translate displacement)
  | rotateAbout {polygon : Polygon Float} (hmade : Made polygon) (centre : Point Float)
      (rotation : Rotation Float) : Made (polygon.rotateAbout centre rotation)

variable {polygon : Polygon Float}

theorem Made.surrounds (hmade : polygon.Made)
    (hdefined : ∀ vertex ∈ polygon.vertices, vertex.IsDefined) :
    polygon.bounds.Surrounds polygon.vertices := by
  induction hmade with
  | ofVertices vertices => exact Box.surrounds_ofPoints hdefined
  | withFreshBounds _ _ => exact Box.surrounds_ofPoints hdefined
  | rotateAbout _ centre rotation _ => exact Box.surrounds_ofPoints hdefined
  | @translate polygon _ displacement ih =>
    have hmoved : ∀ vertex ∈ polygon.vertices, (vertex.translate displacement).IsDefined :=
      fun vertex hmem => hdefined _ (List.mem_map_of_mem hmem)
    -- A sum that is a number has parts that are, so the vertices were defined before the move.
    refine (ih fun vertex hmem => ?_).translated hmoved
    exact ⟨Binary64.defined_of_add (hmoved vertex hmem).1,
      Binary64.defined_of_add (hmoved vertex hmem).2⟩

/-- The box that a polygon keeps is finite just when the polygon has vertices. -/
theorem Made.isFinite_bounds_iff (hmade : polygon.Made) (hfinite : polygon.IsFinite) :
    polygon.bounds.IsFinite ↔ polygon.vertices ≠ [] := by
  obtain ⟨hnone, hempty⟩ | htouches := hmade.surrounds fun vertex hmem =>
    ⟨Binary64.defined_of_isFinite (hfinite vertex hmem).1,
      Binary64.defined_of_isFinite (hfinite vertex hmem).2⟩
  · rw [hempty, hnone]
    have hinfinite : ¬(Box.empty : Box Float).IsFinite := by decide
    simp [hinfinite]
  · obtain ⟨point, hmem, -⟩ := htouches.left
    exact iff_of_true (htouches.isFinite hfinite) (List.ne_nil_of_mem hmem)

theorem keepsFinite_iff {polygons : List (Polygon Float)}
    (hmade : ∀ polygon ∈ polygons, polygon.Made)
    (hfinite : ∀ polygon ∈ polygons, polygon.IsFinite) :
    KeepsFinite polygons ↔ ∀ polygon ∈ polygons, polygon.vertices ≠ [] :=
  forall₂_congr fun polygon hmem => (hmade polygon hmem).isFinite_bounds_iff (hfinite polygon hmem)

end Polygon

/-! ### What is read back -/

namespace Request

theorem IsFinite.polygons {request : Request α} (hfinite : request.IsFinite) :
    ∀ polygon ∈ request.polygons, polygon.IsFinite := by
  obtain ⟨hshape, hsymbol, -⟩ := hfinite
  rw [Request.polygons, List.forall_mem_append]
  constructor
  · cases hcase : request.shape with
    | point position | line points => exact nofun
    | area polygon =>
      rw [hcase] at hshape
      exact List.forall_mem_singleton.mpr hshape
  · cases hcase : request.symbol with
    | none => exact nofun
    | some symbol => exact hsymbol symbol hcase

/-- A request and a symbol of finite numbers are read back as they were written, but for the shapes
that symbols keep, just when the boxes that their polygons keep are finite. Where the polygons are
made of vertices, that is to say that each of them has vertices. -/
theorem finite_numbers_are_read_back {request : Request Float} (hfits : request.Fits)
    (hfinite : request.IsFinite) {symbol : PointSymbol Float} (hsymbol : symbol.IsFinite) :
    (ofJson? request.toJson = some request.withoutSymbolShape ↔ KeepsFinite request.polygons) ∧
    (PointSymbol.ofJson? symbol.toJson = some symbol.withoutShape ↔
      KeepsFinite symbol.outline) ∧
    ((∀ polygon ∈ request.polygons, polygon.Made) →
      (KeepsFinite request.polygons ↔ ∀ polygon ∈ request.polygons, polygon.vertices ≠ [])) ∧
    ((∀ polygon ∈ symbol.outline, polygon.Made) →
      (KeepsFinite symbol.outline ↔ ∀ polygon ∈ symbol.outline, polygon.vertices ≠ [])) :=
  ⟨ofJson?_toJson_iff hfits hfinite, PointSymbol.ofJson?_toJson_iff hsymbol,
    fun hmade => Polygon.keepsFinite_iff hmade hfinite.polygons,
    fun hmade => Polygon.keepsFinite_iff hmade hsymbol⟩

/-- A lake with a symbol, a hidden line and a leader line is read back. -/
theorem placed_lake_is_read_back :
    let shore : Polygon Float := .ofVertices [⟨0, 0⟩, ⟨40, 0⟩, ⟨40, 30⟩]
    let buoy : Polygon Float := Polygon.translate (.ofVertices [⟨0, 0⟩, ⟨2, 0⟩, ⟨0, 2⟩]) ⟨5, 5⟩
    let lake : Request Float :=
      { Request.create 7 3 "lake" (.area shore) (.single "Clear Water Lake") ⟨10, ⟨1, 1⟩⟩ with
        symbol := some { outline := [buoy], cache := none }
        priority := -2
        working := ⟨8, ⟨0.5, 1⟩, 3, [1, 3]⟩
        status := .placedWithLeader
        placement := some
          { corners := ⟨⟨0, 0⟩, ⟨30, 0⟩, ⟨30, 10⟩, ⟨0, 10⟩⟩
            bounds := ⟨⟨0, 0⟩, ⟨30, 10⟩⟩
            angle := 0
            fontSize := 8
            lines := ["Water"]
            hidden := [.stackLevel 1, .stackLevel 3]
            buffers := ⟨0.5, 1⟩
            leader := some ⟨⟨5, 5⟩, ⟨15, 10⟩⟩ } }
    lake.Fits ∧ lake.IsFinite ∧ ofJson? lake.toJson = some lake.withoutSymbolShape ∧
      ∀ symbol ∈ lake.symbol, PointSymbol.ofJson? symbol.toJson = some symbol.withoutShape := by
  intro shore buoy lake
  have hfits : lake.Fits := by decide +kernel
  have hfinite : lake.IsFinite := by decide +kernel
  have hmade : ∀ polygon ∈ lake.polygons, polygon.Made := by
    intro polygon hmem
    obtain rfl | rfl : polygon = shore ∨ polygon = buoy := by
      simpa [lake, polygons, Shape.polygons, Request.create] using hmem
    · exact .ofVertices _
    · exact .translate (.ofVertices _) _
  obtain ⟨hlake, hbuoy, hkept, -⟩ :=
    finite_numbers_are_read_back hfits hfinite (hfinite.2.1 ⟨[buoy], none⟩ rfl)
  have hkeeps : KeepsFinite lake.polygons := (hkept hmade).mpr (by decide +kernel)
  refine ⟨hfits, hfinite, hlake.mpr hkeeps, ?_⟩
  rintro symbol ⟨⟩
  exact hbuoy.mpr ((keepsFinite_polygons.mp hkeeps).2 _ rfl)

/-- A lake without vertices, or a symbol with a polygon without vertices, cannot be read back: the
empty box that is kept has no written form. -/
theorem lake_without_vertices_is_lost :
    let lake : Request Float :=
      .create 1 1 "lake" (.area (.ofVertices [])) (.single "Ab") ⟨10, ⟨1, 1⟩⟩
    let symbol : PointSymbol Float := PointSymbol.blank.edit (· ++ [.ofVertices []])
    lake.Fits ∧ lake.IsFinite ∧ (ofJson? lake.toJson).isNone = true ∧
      symbol.IsFinite ∧ (PointSymbol.ofJson? symbol.toJson).isNone = true := by
  decide +kernel

end Request

end LabelPlacement
