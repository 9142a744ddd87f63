import LabelPlacement.Geometry.Hull
/-!
Point symbols: an outline of polygons with the shape derived from it.

The derived shape (hull, centre, bounding box) is kept until the outline is opened for editing.
When the symbol is moved or rotated, a kept shape goes along instead of being derived anew.
-/

namespace LabelPlacement

inductive OutlineError
  | empty
  | noVertices (index : Nat)
  deriving BEq, DecidableEq

def OutlineError.message : OutlineError → String
  | .empty => "outline contains no polygons"
  | .noVertices index => "polygon " ++ toString index ++ " has no vertices"

structure SymbolShape (α : Type) where
  hull : List (Point α)
  center : Point α
  bounds : Box α
  deriving BEq, DecidableEq

structure PointSymbol (α : Type) where
  outline : List (Polygon α)
  cache : Option (SymbolShape α)

/-- Two symbols are the same when their outlines are; what is kept does not matter. -/
instance {α : Type} [BEq α] : BEq (PointSymbol α) :=
  ⟨fun left right => left.outline == right.outline⟩

variable {α : Type} [Scalar α]

def checkOutline (outline : List (Polygon α)) : Except OutlineError Unit :=
  if outline.isEmpty then .error .empty
  else
    match outline.findIdx? Polygon.isEmpty with
    | some index => .error (.noVertices index)
    | none => .ok ()

namespace SymbolShape

def ofOutline (outline : List (Polygon α)) : Except OutlineError (SymbolShape α) := do
  checkOutline outline
  let bounds := outline.foldl (fun box polygon => box.union polygon.bounds) Box.empty
  return { hull := convexHull (outline.flatMap Polygon.vertices), center := bounds.center, bounds }

def translate (shape : SymbolShape α) (displacement : Displacement α) : SymbolShape α :=
  { hull := shape.hull.map (·.translate displacement)
    center := shape.center.translate displacement
    bounds := shape.bounds.translated displacement }

/-- The shape turned about a centre; a turned hull is again a hull, and its points bound it. -/
def rotateAbout (shape : SymbolShape α) (centre : Point α) (rotation : Rotation α) :
    SymbolShape α :=
  let hull := shape.hull.map (·.rotateAbout centre rotation)
  let bounds := Box.ofPoints hull
  { hull, center := bounds.center, bounds }

end SymbolShape

namespace PointSymbol

def blank : PointSymbol α := { outline := [], cache := none }

def setOutline (_ : PointSymbol α) (outline : List (Polygon α)) :
    Except OutlineError (PointSymbol α) := do
  checkOutline outline
  let outline := outline.map Polygon.withFreshBounds
  let shape ← SymbolShape.ofOutline outline
  return { outline, cache := some shape }

def setOutlineAt (symbol : PointSymbol α) (outline : List (Polygon α)) (origin : Point α) :
    Except OutlineError (PointSymbol α) :=
  let displacement := Displacement.between Point.origin origin
  symbol.setOutline (outline.map (·.translate displacement))

def ofOutline (outline : List (Polygon α)) : Except OutlineError (PointSymbol α) :=
  blank.setOutline outline

def rectangle (centre : Point α) (width height : α) : Except OutlineError (PointSymbol α) :=
  let box := Box.ofCenter centre width height
  ofOutline [.ofVertices
    [box.lower, ⟨box.upper.x, box.lower.y⟩, box.upper, ⟨box.lower.x, box.upper.y⟩]]

/-- The symbol with its outline edited; the kept shape is given up. -/
def edit (symbol : PointSymbol α) (change : List (Polygon α) → List (Polygon α)) : PointSymbol α :=
  { outline := change symbol.outline, cache := none }

def translate (symbol : PointSymbol α) (displacement : Displacement α) : PointSymbol α :=
  { outline := symbol.outline.map (·.translate displacement)
    cache := symbol.cache.map (·.translate displacement) }

def rotateAbout (symbol : PointSymbol α) (centre : Point α) (rotation : Rotation α) :
    PointSymbol α :=
  { outline := symbol.outline.map (·.rotateAbout centre rotation)
    cache := symbol.cache.map (·.rotateAbout centre rotation) }

def isCached (symbol : PointSymbol α) : Bool := symbol.cache.isSome

def shape (symbol : PointSymbol α) : Except OutlineError (SymbolShape α) :=
  match symbol.cache with
  | some shape => .ok shape
  | none => SymbolShape.ofOutline symbol.outline

/-- The symbol after its shape has been asked for: a derived shape is kept from then on. -/
def withShape (symbol : PointSymbol α) : PointSymbol α :=
  match symbol.shape with
  | .ok shape => { symbol with cache := some shape }
  | .error _ => symbol

end PointSymbol

end LabelPlacement
