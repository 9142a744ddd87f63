import Mathlib.Analysis.SpecialFunctions.Complex.Arg
import LabelPlacement.Proofs.Bounds
import LabelPlacement.Proofs.Parameters
import LabelPlacement.Proofs.Reading

/-!
# Shapes that are kept

A symbol keeps the shape derived from its outline, and moves it along when it is moved. With exact
numbers, and rotations whose sine and cosine belong together, a kept shape is the one that would be
derived anew, but for the point that the hull starts at. What is kept up by every change of a symbol
is `PointSymbol.Sound`: the boxes of the polygons are the boxes of their vertices, and a kept shape
describes the vertices of the outline.
-/

namespace LabelPlacement

/-! ### Reading what was written -/

section Reading

variable {α : Type} [Scalar α]

theorem Point.eq_of_ofJson?_toJson {point result : Point α}
    (hread : ofJson? point.toJson = some result) : result = point := by
  obtain ⟨x, hx, hread⟩ := Option.bind_eq_some_iff.mp hread
  obtain ⟨y, hy, hread⟩ := Option.bind_eq_some_iff.mp hread
  rw [← Option.some.inj hread, (Json.number?_ofNumber_eq_some_iff.mp hx).2,
    (Json.number?_ofNumber_eq_some_iff.mp hy).2]

theorem Box.eq_of_ofJson?_toJson {box result : Box α} (hread : ofJson? box.toJson = some result) :
    result = box := by
  obtain ⟨lower, hlower, hread⟩ := Option.bind_eq_some_iff.mp hread
  obtain ⟨upper, hupper, hread⟩ := Option.bind_eq_some_iff.mp hread
  rw [← Option.some.inj hread, Point.eq_of_ofJson?_toJson hlower,
    Point.eq_of_ofJson?_toJson hupper]

theorem Polygon.eq_of_ofJson?_toJson {polygon result : Polygon α}
    (hread : ofJson? polygon.toJson = some result) : result = polygon := by
  obtain ⟨vertices, hvertices, hread⟩ := Option.bind_eq_some_iff.mp hread
  obtain ⟨bounds, hbounds, hread⟩ := Option.bind_eq_some_iff.mp hread
  have hsame := Json.eq_of_list?_ofList
    (fun _ _ hpoint => Point.eq_of_ofJson?_toJson hpoint) hvertices
  rw [← Option.some.inj hread, hsame, Box.eq_of_ofJson?_toJson hbounds]

/-- A symbol that is read back has its outline, and no shape is kept. -/
theorem PointSymbol.eq_of_ofJson?_toJson {symbol result : PointSymbol α}
    (hread : ofJson? symbol.toJson = some result) : result = { symbol with cache := none } := by
  obtain ⟨outline, houtline, hread⟩ := Option.bind_eq_some_iff.mp hread
  have hsame := Json.eq_of_list?_ofList
    (fun _ _ hpolygon => Polygon.eq_of_ofJson?_toJson hpolygon) houtline
  rw [← Option.some.inj hread, hsame]

end Reading

/-! ### Outlines and their shapes -/

/-- An outline has polygons, and all of them have vertices. -/
def HasShape (outline : List (Polygon ℝ)) : Prop :=
  outline ≠ [] ∧ ∀ polygon ∈ outline, polygon.vertices ≠ []

/-- The stored boxes of the polygons are the boxes of their vertices. -/
def Bounded (outline : List (Polygon ℝ)) : Prop :=
  ∀ polygon ∈ outline, polygon.bounds = .ofPoints polygon.vertices

/-- The shape is the one of these points: a hull of them, the box around them and its centre. -/
structure SymbolShape.Describes (shape : SymbolShape ℝ) (points : List (Point ℝ)) : Prop where
  nonempty : points ≠ []
  hull : IsHull points shape.hull
  bounds : shape.bounds = .ofPoints points
  center : shape.center = shape.bounds.center

/-- Two shapes are the same but for the point that the hull starts at. -/
structure SymbolShape.Agrees (shape other : SymbolShape ℝ) : Prop where
  hull : shape.hull ~r other.hull
  center : shape.center = other.center
  bounds : shape.bounds = other.bounds

variable {outline : List (Polygon ℝ)}

theorem checkOutline_eq_ok_iff : checkOutline outline = .ok () ↔ HasShape outline := by
  rw [checkOutline, HasShape]
  by_cases hpolygons : outline = []
  · subst hpolygons
    simp
  · rw [if_neg (by simpa using hpolygons)]
    cases hfound : outline.findIdx? Polygon.isEmpty with
    | some index =>
      obtain ⟨hindex, hempty, -⟩ := List.findIdx?_eq_some_iff_getElem.mp hfound
      refine iff_of_false (by simp) fun hshape => ?_
      exact hshape.2 _ (List.getElem_mem hindex) (List.isEmpty_iff.mp hempty)
    | none =>
      refine iff_of_true rfl ⟨hpolygons, fun polygon hmem hnone => ?_⟩
      have hsome := List.findIdx?_eq_none_iff.mp hfound polygon hmem
      rw [Polygon.isEmpty, hnone] at hsome
      cases hsome

theorem HasShape.vertices_ne_nil (hshape : HasShape outline) :
    outline.flatMap Polygon.vertices ≠ [] := by
  obtain ⟨polygon, hmem⟩ := List.exists_mem_of_ne_nil outline hshape.1
  obtain ⟨vertex, hvertex⟩ := List.exists_mem_of_ne_nil _ (hshape.2 polygon hmem)
  exact List.ne_nil_of_mem (List.mem_flatMap.mpr ⟨polygon, hmem, hvertex⟩)

theorem HasShape.map {change : Polygon ℝ → Polygon ℝ} (hshape : HasShape outline)
    (hchange : ∀ polygon, (change polygon).vertices = [] → polygon.vertices = []) :
    HasShape (outline.map change) := by
  refine ⟨by simpa using hshape.1, fun image himage hnone => ?_⟩
  obtain ⟨polygon, hmem, rfl⟩ := List.mem_map.mp himage
  exact hshape.2 polygon hmem (hchange polygon hnone)

theorem Bounded.map {change : Polygon ℝ → Polygon ℝ} (hbounded : Bounded outline)
    (hchange : ∀ polygon : Polygon ℝ, polygon.bounds = .ofPoints polygon.vertices →
      (change polygon).bounds = .ofPoints (change polygon).vertices) :
    Bounded (outline.map change) := by
  intro image himage
  obtain ⟨polygon, hmem, rfl⟩ := List.mem_map.mp himage
  exact hchange polygon (hbounded polygon hmem)

theorem Polygon.bounds_translate {polygon : Polygon ℝ} (displacement : Displacement ℝ)
    (hbounds : polygon.bounds = .ofPoints polygon.vertices) :
    (polygon.translate displacement).bounds =
      .ofPoints (polygon.translate displacement).vertices := by
  rw [translate, hbounds]
  exact Box.translated_ofPoints polygon.vertices displacement

theorem Point.midpoint_translate (left right : Point ℝ) (displacement : Displacement ℝ) :
    (left.translate displacement).midpoint (right.translate displacement) =
      (left.midpoint right).translate displacement := by
  refine Point.ext ?_ ?_
  · change (left.x + displacement.x + (right.x + displacement.x)) * (0.5 : ℝ) =
      (left.x + right.x) * (0.5 : ℝ) + displacement.x
    ring
  · change (left.y + displacement.y + (right.y + displacement.y)) * (0.5 : ℝ) =
      (left.y + right.y) * (0.5 : ℝ) + displacement.y
    ring

namespace SymbolShape

variable {shape other : SymbolShape ℝ} {points : List (Point ℝ)}

theorem Describes.agrees (hdescribes : shape.Describes points) (hother : other.Describes points) :
    shape.Agrees other where
  hull := hdescribes.hull.isRotated hother.hull
  center := by rw [hdescribes.center, hother.center, hdescribes.bounds, hother.bounds]
  bounds := hdescribes.bounds.trans hother.bounds.symm

theorem Agrees.refl (shape : SymbolShape ℝ) : shape.Agrees shape :=
  ⟨.refl _, rfl, rfl⟩

/-- An outline has a shape just when it has polygons and all of them have vertices. -/
theorem exists_ofOutline_iff : (∃ shape, ofOutline outline = .ok shape) ↔ HasShape outline := by
  rw [← checkOutline_eq_ok_iff]
  constructor
  · rintro ⟨shape, hshape⟩
    obtain ⟨checked, hchecked, -⟩ := exists_of_bind_eq_ok hshape
    exact hchecked
  · intro hchecked
    exact ⟨_, by rw [ofOutline, hchecked]; rfl⟩

theorem describes_of_ofOutline (hbounded : Bounded outline)
    (hshape : ofOutline outline = .ok shape) :
    shape.Describes (outline.flatMap Polygon.vertices) := by
  have hwhole := exists_ofOutline_iff.mp ⟨shape, hshape⟩
  obtain ⟨checked, -, hmade⟩ := exists_of_bind_eq_ok hshape
  obtain rfl := Except.ok.inj hmade
  have hfits : ∀ polygon ∈ outline, polygon.bounds.Fits polygon.vertices := by
    intro polygon hmem
    rw [hbounded polygon hmem]
    exact Box.fits_ofPoints (hwhole.2 polygon hmem)
  have hvertices := hwhole.vertices_ne_nil
  have hunion := (Box.encloses_foldl_union hfits).resolve_left fun hnone => hvertices hnone.1
  exact ⟨hvertices, isHull_convexHull _, hunion.eq_ofPoints, rfl⟩

theorem Describes.translate (hdescribes : shape.Describes points) (displacement : Displacement ℝ) :
    (shape.translate displacement).Describes (points.map (·.translate displacement)) := by
  refine ⟨by simpa using hdescribes.nonempty, (rigid_translate displacement).isHull_map
    hdescribes.hull, ?_, ?_⟩
  · rw [SymbolShape.translate, hdescribes.bounds]
    exact Box.translated_ofPoints points displacement
  · have hsome := (Box.fits_ofPoints hdescribes.nonempty).isEmpty_eq
    rw [SymbolShape.translate, hdescribes.center, hdescribes.bounds, Box.translated,
      if_neg (by simp [hsome])]
    exact (Point.midpoint_translate _ _ displacement).symm

theorem Describes.rotateAbout (hdescribes : shape.Describes points) (centre : Point ℝ)
    {rotation : Rotation ℝ}
    (hrotation : rotation.cos * rotation.cos + rotation.sin * rotation.sin = 1) :
    (shape.rotateAbout centre rotation).Describes (points.map (·.rotateAbout centre rotation)) := by
  have hhull := (rigid_rotateAbout centre hrotation).isHull_map hdescribes.hull
  exact ⟨by simpa using hdescribes.nonempty, hhull, hhull.ofPoints_eq, rfl⟩

end SymbolShape

/-! ### Changes of a symbol -/

/-- A rotation whose sine and cosine belong together. -/
structure Turn extends Rotation ℝ where
  unit : cos * cos + sin * sin = 1

namespace PointSymbol

/-- What can be done with a symbol: give it an outline, in map coordinates or relative to an origin,
change polygons of the outline in place, move or turn it, ask for its shape, copy it, and write it
and read it back. -/
inductive Edit
  | setOutline (outline : List (Polygon ℝ))
  | setOutlineAt (outline : List (Polygon ℝ)) (origin : Point ℝ)
  | push (vertices : List (Point ℝ))
  | pop
  | translatePolygon (index : Nat) (displacement : Displacement ℝ)
  | rotatePolygon (index : Nat) (centre : Point ℝ) (turn : Turn)
  | translate (displacement : Displacement ℝ)
  | rotate (centre : Point ℝ) (turn : Turn)
  | askShape
  | copy
  | rewrite

namespace Edit

/-- The symbol that an edit makes, unless it is refused. -/
noncomputable def perform (symbol : PointSymbol ℝ) : Edit → Except OutlineError (PointSymbol ℝ)
  | setOutline outline => symbol.setOutline outline
  | setOutlineAt outline origin => symbol.setOutlineAt outline origin
  | push vertices => .ok (symbol.edit (· ++ [.ofVertices vertices]))
  | pop => .ok (symbol.edit List.dropLast)
  | translatePolygon index displacement =>
    .ok (symbol.edit (·.modify index (·.translate displacement)))
  | rotatePolygon index centre turn =>
    .ok (symbol.edit (·.modify index (·.rotateAbout centre turn.toRotation)))
  | translate displacement => .ok (symbol.translate displacement)
  | rotate centre turn => .ok (symbol.rotateAbout centre turn.toRotation)
  | askShape => .ok symbol.withShape
  | copy => .ok symbol
  | rewrite => .ok ((ofJson? symbol.toJson).getD symbol)

/-- The symbol after an edit. An edit is refused before anything is written, so there is no other
symbol then than the one at hand. -/
noncomputable def apply (symbol : PointSymbol ℝ) (edit : Edit) : PointSymbol ℝ :=
  match edit.perform symbol with
  | .ok changed => changed
  | .error _ => symbol

end Edit

/-- Symbols that come from the blank one or from one that is made of an outline. -/
inductive Reached : PointSymbol ℝ → Prop
  | blank : Reached .blank
  | ofOutline {outline : List (Polygon ℝ)} {symbol : PointSymbol ℝ}
      (hmade : ofOutline outline = .ok symbol) : Reached symbol
  | edit {symbol : PointSymbol ℝ} (hreached : Reached symbol) (edit : Edit) :
      Reached (edit.apply symbol)

/-- The boxes of the polygons are right, and a kept shape describes the vertices. -/
structure Sound (symbol : PointSymbol ℝ) : Prop where
  bounded : Bounded symbol.outline
  cached : ∀ shape ∈ symbol.cache,
    HasShape symbol.outline ∧ shape.Describes (symbol.outline.flatMap Polygon.vertices)

variable {symbol changed : PointSymbol ℝ} {outline : List (Polygon ℝ)}

theorem sound_blank : Sound .blank := ⟨nofun, nofun⟩

/-- An edited outline keeps no shape. -/
theorem Sound.edit {change : List (Polygon ℝ) → List (Polygon ℝ)}
    (hchange : Bounded (change symbol.outline)) : (symbol.edit change).Sound :=
  ⟨hchange, nofun⟩

theorem bounded_map_withFreshBounds (outline : List (Polygon ℝ)) :
    Bounded (outline.map Polygon.withFreshBounds) := by
  intro image himage
  obtain ⟨polygon, -, rfl⟩ := List.mem_map.mp himage
  rfl

/-- An outline is refused just when it has no shape. -/
theorem exists_setOutline_iff (symbol : PointSymbol ℝ) :
    (∃ changed, symbol.setOutline outline = .ok changed) ↔ HasShape outline := by
  constructor
  · rintro ⟨changed, hmade⟩
    obtain ⟨checked, hchecked, -⟩ := exists_of_bind_eq_ok hmade
    exact checkOutline_eq_ok_iff.mp hchecked
  · intro hwhole
    have hfresh : HasShape (outline.map Polygon.withFreshBounds) := hwhole.map fun _ => id
    obtain ⟨shape, hshape⟩ := SymbolShape.exists_ofOutline_iff.mpr hfresh
    refine ⟨{ outline := outline.map Polygon.withFreshBounds, cache := some shape }, ?_⟩
    rw [setOutline, checkOutline_eq_ok_iff.mpr hwhole]
    change (SymbolShape.ofOutline (outline.map Polygon.withFreshBounds) >>= fun shape => _) = _
    rw [hshape]
    rfl

theorem exists_setOutlineAt_iff (symbol : PointSymbol ℝ) (origin : Point ℝ) :
    (∃ changed, symbol.setOutlineAt outline origin = .ok changed) ↔ HasShape outline := by
  refine (exists_setOutline_iff symbol).trans ⟨fun hwhole => ?_, fun hwhole => ?_⟩
  · refine ⟨fun hnone => hwhole.1 (by rw [hnone, List.map_nil]), fun polygon hmem hnone => ?_⟩
    refine hwhole.2 _ (List.mem_map_of_mem hmem) ?_
    rw [Polygon.translate, hnone, List.map_nil]
  · exact hwhole.map fun polygon => List.map_eq_nil_iff.mp

theorem sound_of_setOutline (symbol : PointSymbol ℝ)
    (hmade : symbol.setOutline outline = .ok changed) : changed.Sound := by
  obtain ⟨checked, hchecked, hmade⟩ := exists_of_bind_eq_ok hmade
  obtain ⟨shape, hshape, hmade⟩ := exists_of_bind_eq_ok hmade
  obtain rfl := Except.ok.inj hmade
  have hbounded := bounded_map_withFreshBounds outline
  refine ⟨hbounded, ?_⟩
  rintro _ ⟨⟩
  exact ⟨SymbolShape.exists_ofOutline_iff.mp ⟨shape, hshape⟩,
    SymbolShape.describes_of_ofOutline hbounded hshape⟩

theorem bounded_modify (hbounded : Bounded outline) {change : Polygon ℝ → Polygon ℝ}
    (hchange : ∀ polygon : Polygon ℝ, polygon.bounds = .ofPoints polygon.vertices →
      (change polygon).bounds = .ofPoints (change polygon).vertices) (index : Nat) :
    Bounded (outline.modify index change) := by
  intro polygon hmem
  obtain ⟨position, hposition, rfl⟩ := List.getElem_of_mem hmem
  rw [List.getElem_modify]
  split
  · exact hchange _ (hbounded _ (List.getElem_mem _))
  · exact hbounded _ (List.getElem_mem _)

theorem Sound.translate (hsound : symbol.Sound) (displacement : Displacement ℝ) :
    (symbol.translate displacement).Sound := by
  refine ⟨hsound.bounded.map fun _ => Polygon.bounds_translate displacement, ?_⟩
  intro shape hshape
  obtain ⟨kept, hkept, rfl⟩ := Option.map_eq_some_iff.mp hshape
  obtain ⟨hwhole, hdescribes⟩ := hsound.cached kept hkept
  refine ⟨hwhole.map fun polygon => List.map_eq_nil_iff.mp, ?_⟩
  have hvertices : (symbol.translate displacement).outline.flatMap Polygon.vertices =
      (symbol.outline.flatMap Polygon.vertices).map (·.translate displacement) := by
    rw [PointSymbol.translate, List.flatMap_map, List.map_flatMap]
    rfl
  rw [hvertices]
  exact hdescribes.translate displacement

theorem Sound.rotateAbout (hsound : symbol.Sound) (centre : Point ℝ) (turn : Turn) :
    (symbol.rotateAbout centre turn.toRotation).Sound := by
  refine ⟨hsound.bounded.map fun _ _ => rfl, ?_⟩
  intro shape hshape
  obtain ⟨kept, hkept, rfl⟩ := Option.map_eq_some_iff.mp hshape
  obtain ⟨hwhole, hdescribes⟩ := hsound.cached kept hkept
  refine ⟨hwhole.map fun polygon => List.map_eq_nil_iff.mp, ?_⟩
  have hvertices : (symbol.rotateAbout centre turn.toRotation).outline.flatMap Polygon.vertices =
      (symbol.outline.flatMap Polygon.vertices).map (·.rotateAbout centre turn.toRotation) := by
    rw [PointSymbol.rotateAbout, List.flatMap_map, List.map_flatMap]
    rfl
  rw [hvertices]
  exact hdescribes.rotateAbout centre turn.unit

/-- A kept shape agrees with the one that the outline gives. -/
theorem Sound.exists_fresh (hsound : symbol.Sound) {shape : SymbolShape ℝ}
    (hshape : symbol.shape = .ok shape) :
    ∃ fresh, SymbolShape.ofOutline symbol.outline = .ok fresh ∧ shape.Agrees fresh := by
  rw [PointSymbol.shape] at hshape
  split at hshape
  · rename_i kept hkept
    obtain rfl := Except.ok.inj hshape
    obtain ⟨hwhole, hdescribes⟩ := hsound.cached kept hkept
    obtain ⟨fresh, hfresh⟩ := SymbolShape.exists_ofOutline_iff.mpr hwhole
    exact ⟨fresh, hfresh,
      hdescribes.agrees (SymbolShape.describes_of_ofOutline hsound.bounded hfresh)⟩
  · exact ⟨shape, hshape, .refl shape⟩

theorem Sound.exists_shape_iff (hsound : symbol.Sound) :
    (∃ shape, symbol.shape = .ok shape) ↔ HasShape symbol.outline := by
  constructor
  · rintro ⟨shape, hshape⟩
    obtain ⟨fresh, hfresh, -⟩ := hsound.exists_fresh hshape
    exact SymbolShape.exists_ofOutline_iff.mp ⟨fresh, hfresh⟩
  · intro hwhole
    rw [PointSymbol.shape]
    cases symbol.cache with
    | some kept => exact ⟨kept, rfl⟩
    | none => exact SymbolShape.exists_ofOutline_iff.mpr hwhole

theorem Sound.withShape (hsound : symbol.Sound) : symbol.withShape.Sound := by
  rw [PointSymbol.withShape]
  cases hshape : symbol.shape with
  | error error => exact hsound
  | ok shape =>
    refine ⟨hsound.bounded, ?_⟩
    rintro _ ⟨⟩
    rw [PointSymbol.shape] at hshape
    split at hshape
    · rename_i kept hkept
      obtain rfl := Except.ok.inj hshape
      exact hsound.cached kept hkept
    · exact ⟨SymbolShape.exists_ofOutline_iff.mp ⟨shape, hshape⟩,
        SymbolShape.describes_of_ofOutline hsound.bounded hshape⟩

/-- **One edit.** -/
theorem Sound.perform (hsound : symbol.Sound) {edit : Edit}
    (hmade : edit.perform symbol = .ok changed) : changed.Sound := by
  cases edit with
  | setOutline outline => exact sound_of_setOutline symbol hmade
  | setOutlineAt outline origin => exact sound_of_setOutline symbol hmade
  | push vertices =>
    obtain rfl := Except.ok.inj hmade
    refine .edit fun polygon hmem => ?_
    obtain hmem | hmem := List.mem_append.mp hmem
    · exact hsound.bounded polygon hmem
    · rw [List.mem_singleton.mp hmem]
      rfl
  | pop =>
    obtain rfl := Except.ok.inj hmade
    exact .edit fun polygon hmem => hsound.bounded polygon (List.mem_of_mem_dropLast hmem)
  | translatePolygon index displacement =>
    obtain rfl := Except.ok.inj hmade
    exact .edit (bounded_modify hsound.bounded (fun _ => Polygon.bounds_translate displacement) _)
  | rotatePolygon index centre turn =>
    obtain rfl := Except.ok.inj hmade
    exact .edit (bounded_modify hsound.bounded (fun _ _ => rfl) _)
  | translate displacement =>
    obtain rfl := Except.ok.inj hmade
    exact hsound.translate displacement
  | rotate centre turn =>
    obtain rfl := Except.ok.inj hmade
    exact hsound.rotateAbout centre turn
  | askShape =>
    obtain rfl := Except.ok.inj hmade
    exact hsound.withShape
  | copy =>
    obtain rfl := Except.ok.inj hmade
    exact hsound
  | rewrite =>
    obtain rfl := Except.ok.inj hmade
    cases hread : ofJson? symbol.toJson with
    | none => exact hsound
    | some result =>
      rw [Option.getD_some, eq_of_ofJson?_toJson hread]
      exact ⟨hsound.bounded, nofun⟩

theorem Sound.apply (hsound : symbol.Sound) (edit : Edit) : (edit.apply symbol).Sound := by
  rw [Edit.apply]
  split
  · rename_i changed hmade
    exact hsound.perform hmade
  · exact hsound

/-- **All edits.** -/
theorem Reached.sound (hreached : symbol.Reached) : symbol.Sound := by
  induction hreached with
  | blank => exact sound_blank
  | ofOutline hmade => exact sound_of_setOutline PointSymbol.blank hmade
  | edit _ edit ih => exact ih.apply edit

/-- **Kept shapes.** However a symbol was changed, the boxes of its polygons are the boxes of their
vertices. It has a shape just when its outline has polygons and all of them have vertices, and then
the shape is the one that the outline gives, but for the point that the hull starts at. An outline
is refused just when it has no shape; the last clause only names what `Edit.apply` does then. -/
theorem shape_agrees (hreached : symbol.Reached) :
    (∀ polygon ∈ symbol.outline, polygon.bounds = .ofPoints polygon.vertices) ∧
    ((∃ shape, symbol.shape = .ok shape) ↔
      symbol.outline ≠ [] ∧ ∀ polygon ∈ symbol.outline, polygon.vertices ≠ []) ∧
    (∀ shape, symbol.shape = .ok shape → ∃ fresh,
      SymbolShape.ofOutline symbol.outline = .ok fresh ∧ shape.bounds = fresh.bounds ∧
        shape.center = fresh.center ∧ shape.hull ~r fresh.hull) ∧
    ∀ edit : Edit, ∀ outline origin,
      edit = .setOutline outline ∨ edit = .setOutlineAt outline origin →
      ((∃ changed, edit.perform symbol = .ok changed) ↔
        outline ≠ [] ∧ ∀ polygon ∈ outline, polygon.vertices ≠ []) ∧
      ((∃ error, edit.perform symbol = .error error) → edit.apply symbol = symbol) := by
  have hsound := hreached.sound
  refine ⟨hsound.bounded, hsound.exists_shape_iff, fun shape hshape => ?_, ?_⟩
  · obtain ⟨fresh, hfresh, hagrees⟩ := hsound.exists_fresh hshape
    exact ⟨fresh, hfresh, hagrees.bounds, hagrees.center, hagrees.hull⟩
  · intro edit outline origin hedit
    refine ⟨?_, ?_⟩
    · obtain rfl | rfl := hedit
      · exact exists_setOutline_iff symbol
      · exact exists_setOutlineAt_iff symbol origin
    · rintro ⟨error, herror⟩
      rw [Edit.apply, herror]

/-- A square that is turned by a quarter and moved. -/
theorem turned_square_keeps_shape :
    let square : Polygon ℝ := .ofVertices [⟨0, 0⟩, ⟨2, 0⟩, ⟨2, 2⟩, ⟨0, 2⟩]
    let quarter : Turn := { cos := 0, sin := 1, unit := by norm_num }
    let edits : List Edit := [.setOutline [square], .rotate ⟨0, 0⟩ quarter, .translate ⟨5, 0⟩]
    let symbol : PointSymbol ℝ := edits.foldl Edit.apply .blank
    symbol.Reached ∧ symbol.isCached = true ∧ ∃ shape fresh, symbol.shape = .ok shape ∧
      SymbolShape.ofOutline symbol.outline = .ok fresh ∧ shape.bounds = fresh.bounds ∧
        shape.center = fresh.center ∧ shape.hull ~r fresh.hull := by
  intro square quarter edits symbol
  have hreached : symbol.Reached :=
    .edit (.edit (.edit .blank (.setOutline [square])) (.rotate ⟨0, 0⟩ quarter)) (.translate ⟨5, 0⟩)
  obtain ⟨-, hexists, hagrees, -⟩ := shape_agrees hreached
  obtain ⟨shape, hshape⟩ := hexists.mpr ⟨List.cons_ne_nil _ _, fun polygon hmem => by
    rw [List.mem_singleton.mp hmem]
    exact List.cons_ne_nil _ _⟩
  obtain ⟨fresh, hfresh, hsame⟩ := hagrees shape hshape
  exact ⟨hreached, rfl, shape, fresh, hshape, hfresh, hsame⟩

end PointSymbol

end LabelPlacement
