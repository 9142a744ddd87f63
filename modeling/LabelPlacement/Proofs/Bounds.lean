import LabelPlacement.Proofs.Extremes

/-!
# Bounding boxes

A box fits points when it holds all of them and has one on each of its sides. Only one box does
(`Box.Fits.unique`), so two ways to a bounding box agree as soon as both fit: the box around all
vertices, the union of the boxes of polygons, the box that is moved along, and the box around the
hull (`IsHull.ofPoints_eq`).
-/

namespace LabelPlacement

attribute [ext] Box

namespace Box

/-- The box holds the points, and a point is on each of its sides. -/
structure Fits (box : Box ℝ) (points : List (Point ℝ)) : Prop where
  holds : ∀ point ∈ points, box.Holds point
  left : ∃ point ∈ points, point.x = box.lower.x
  right : ∃ point ∈ points, point.x = box.upper.x
  below : ∃ point ∈ points, point.y = box.lower.y
  above : ∃ point ∈ points, point.y = box.upper.y

variable {box other : Box ℝ} {points more : List (Point ℝ)}

theorem Fits.isEmpty_eq (hfits : box.Fits points) : box.isEmpty = false := by
  obtain ⟨point, hmem, -⟩ := hfits.left
  exact (hfits.holds point hmem).isEmpty_eq

/-- **One box.** -/
theorem Fits.unique (hfits : box.Fits points) (hother : other.Fits points) : box = other := by
  have hle : ∀ {box other : Box ℝ}, box.Fits points → other.Fits points →
      box.lower.x ≤ other.lower.x ∧ box.lower.y ≤ other.lower.y ∧
        other.upper.x ≤ box.upper.x ∧ other.upper.y ≤ box.upper.y := by
    intro box other hfits hother
    obtain ⟨left, hleft, hleftEq⟩ := hother.left
    obtain ⟨below, hbelow, hbelowEq⟩ := hother.below
    obtain ⟨right, hright, hrightEq⟩ := hother.right
    obtain ⟨above, habove, haboveEq⟩ := hother.above
    rw [← hleftEq, ← hbelowEq, ← hrightEq, ← haboveEq]
    exact ⟨(hfits.holds left hleft).left, (hfits.holds below hbelow).below,
      (hfits.holds right hright).right, (hfits.holds above habove).above⟩
  obtain ⟨hleft, hbelow, hright, habove⟩ := hle hfits hother
  obtain ⟨hleft', hbelow', hright', habove'⟩ := hle hother hfits
  exact Box.ext (Point.ext (le_antisymm hleft hleft') (le_antisymm hbelow hbelow'))
    (Point.ext (le_antisymm hright' hright) (le_antisymm habove' habove))

theorem isEmpty_empty : (empty : Box ℝ).isEmpty = true := by
  have hlt : (-1000000000000 : ℝ) < 1000000000000 := by norm_num
  rw [isEmpty, Bool.or_eq_true]
  exact Or.inl (decide_eq_true hlt)

/-- The box that fits points, or the empty box around none. -/
def Encloses (box : Box ℝ) (points : List (Point ℝ)) : Prop :=
  points = [] ∧ box = empty ∨ box.Fits points

theorem Encloses.enclose (hencloses : box.Encloses points) (point : Point ℝ) :
    (box.enclose point).Fits (points ++ [point]) := by
  obtain ⟨rfl, rfl⟩ | hfits := hencloses
  · rw [Box.enclose, if_pos isEmpty_empty]
    have hmem : point ∈ [] ++ [point] := List.mem_singleton.mpr rfl
    refine ⟨fun other hother => ?_, ⟨point, hmem, rfl⟩, ⟨point, hmem, rfl⟩, ⟨point, hmem, rfl⟩,
      ⟨point, hmem, rfl⟩⟩
    rw [List.mem_singleton.mp hother]
    exact ⟨le_rfl, le_rfl, le_rfl, le_rfl⟩
  · have hlast : point ∈ points ++ [point] := List.mem_append_right _ (List.mem_singleton.mpr rfl)
    have hside : ∀ {coordinate : Point ℝ → ℝ} {value chosen : ℝ},
        (∃ other ∈ points, coordinate other = value) → chosen = value ∨ chosen = coordinate point →
        ∃ other ∈ points ++ [point], coordinate other = chosen := by
      rintro coordinate value chosen ⟨other, hother, rfl⟩ (rfl | rfl)
      · exact ⟨other, List.mem_append_left _ hother, rfl⟩
      · exact ⟨point, hlast, rfl⟩
    refine ⟨fun other hother => ?_, ?_, ?_, ?_, ?_⟩
    · obtain hother | hother := List.mem_append.mp hother
      · exact (hfits.holds other hother).enclose point
      · rw [List.mem_singleton.mp hother]
        exact holds_enclose box point
    · rw [enclose_eq hfits.isEmpty_eq]
      exact hside hfits.left (min_choice _ _)
    · rw [enclose_eq hfits.isEmpty_eq]
      exact hside hfits.right (max_choice _ _).symm
    · rw [enclose_eq hfits.isEmpty_eq]
      exact hside hfits.below (min_choice _ _)
    · rw [enclose_eq hfits.isEmpty_eq]
      exact hside hfits.above (max_choice _ _).symm

theorem encloses_ofPoints (points : List (Point ℝ)) : (ofPoints points).Encloses points := by
  induction points using List.reverseRecOn with
  | nil => exact Or.inl ⟨rfl, rfl⟩
  | append_singleton points point ih =>
    rw [ofPoints, List.foldl_append]
    exact Or.inr (ih.enclose point)

theorem fits_ofPoints (hpoints : points ≠ []) : (ofPoints points).Fits points :=
  (encloses_ofPoints points).resolve_left fun hnone => hpoints hnone.1

theorem Fits.eq_ofPoints (hfits : box.Fits points) : box = ofPoints points := by
  obtain ⟨point, hmem, -⟩ := hfits.left
  exact hfits.unique (fits_ofPoints (List.ne_nil_of_mem hmem))

/-! ### Union -/

/-- The corners of a box stand for all points that it fits. -/
theorem Fits.of_corners (hfits : box.Fits (points ++ [other.lower] ++ [other.upper]))
    (hother : other.Fits more) : box.Fits (points ++ more) := by
  have hlower := hfits.holds other.lower (by simp)
  have hupper := hfits.holds other.upper (by simp)
  have hside : ∀ {coordinate : Point ℝ → ℝ} {value : ℝ},
      (∃ point ∈ points ++ [other.lower] ++ [other.upper], coordinate point = value) →
      (∃ point ∈ more, coordinate point = coordinate other.lower) →
      (∃ point ∈ more, coordinate point = coordinate other.upper) →
      ∃ point ∈ points ++ more, coordinate point = value := by
    rintro coordinate value ⟨point, hmem, rfl⟩ ⟨low, hlow, hlowEq⟩ ⟨high, hhigh, hhighEq⟩
    simp only [List.append_assoc, List.mem_append, List.mem_singleton] at hmem
    obtain hmem | rfl | rfl := hmem
    · exact ⟨point, List.mem_append_left _ hmem, rfl⟩
    · exact ⟨low, List.mem_append_right _ hlow, hlowEq⟩
    · exact ⟨high, List.mem_append_right _ hhigh, hhighEq⟩
  refine ⟨fun point hmem => ?_, hside hfits.left hother.left hother.right,
    hside hfits.right hother.left hother.right, hside hfits.below hother.below hother.above,
    hside hfits.above hother.below hother.above⟩
  obtain hmem | hmem := List.mem_append.mp hmem
  · exact hfits.holds point (by simp [hmem])
  · have hheld := hother.holds point hmem
    exact ⟨hlower.left.trans hheld.left, hheld.right.trans hupper.right,
      hlower.below.trans hheld.below, hheld.above.trans hupper.above⟩

theorem Encloses.union (hencloses : box.Encloses points) (hother : other.Fits more) :
    (box.union other).Fits (points ++ more) := by
  rw [Box.union, if_neg (by simp [hother.isEmpty_eq])]
  have hlower : (box.enclose other.lower).Encloses (points ++ [other.lower]) :=
    Or.inr (hencloses.enclose other.lower)
  exact (hlower.enclose other.upper).of_corners hother

/-- The union of the boxes of lists of points fits all of them. -/
theorem encloses_foldl_union {ι : Type} {vertices : ι → List (Point ℝ)} {bounds : ι → Box ℝ}
    {elements : List ι} (hfits : ∀ element ∈ elements, (bounds element).Fits (vertices element)) :
    (elements.foldl (fun box element => box.union (bounds element)) empty).Encloses
      (elements.flatMap vertices) := by
  induction elements using List.reverseRecOn with
  | nil => exact Or.inl ⟨rfl, rfl⟩
  | append_singleton elements element ih =>
    rw [List.foldl_append, List.flatMap_append, List.flatMap_singleton]
    refine Or.inr ((ih fun other hother => ?_).union ?_)
    · exact hfits other (List.mem_append_left _ hother)
    · exact hfits element (List.mem_append_right _ (List.mem_singleton.mpr rfl))

/-! ### Moving -/

theorem Fits.translated (hfits : box.Fits points) (displacement : Displacement ℝ) :
    (box.translated displacement).Fits (points.map (·.translate displacement)) := by
  rw [Box.translated, if_neg (by simp [hfits.isEmpty_eq])]
  have hside : ∀ {coordinate : Point ℝ → ℝ} {value shift : ℝ},
      (∀ point : Point ℝ, coordinate (point.translate displacement) = coordinate point + shift) →
      (∃ point ∈ points, coordinate point = value) →
      ∃ point ∈ points.map (·.translate displacement), coordinate point = value + shift := by
    rintro coordinate value shift hshift ⟨point, hmem, rfl⟩
    exact ⟨_, List.mem_map_of_mem hmem, hshift point⟩
  refine ⟨fun image himage => ?_, hside (fun _ => rfl) hfits.left, hside (fun _ => rfl) hfits.right,
    hside (fun _ => rfl) hfits.below, hside (fun _ => rfl) hfits.above⟩
  obtain ⟨point, hmem, rfl⟩ := List.mem_map.mp himage
  have hheld := hfits.holds point hmem
  exact ⟨add_le_add_left hheld.left _, add_le_add_left hheld.right _,
    add_le_add_left hheld.below _, add_le_add_left hheld.above _⟩

theorem translated_ofPoints (points : List (Point ℝ)) (displacement : Displacement ℝ) :
    (ofPoints points).translated displacement =
      ofPoints (points.map (·.translate displacement)) := by
  obtain ⟨rfl, hempty⟩ | hfits := encloses_ofPoints points
  · rw [translated, hempty, if_pos isEmpty_empty]
    rfl
  · exact (hfits.translated displacement).eq_ofPoints

end Box

/-- **The box around a hull** is the one around its points. -/
theorem IsHull.ofPoints_eq {points hull : List (Point ℝ)} (hhull : IsHull points hull) :
    Box.ofPoints hull = Box.ofPoints points := by
  by_cases hpoints : points = []
  · subst hpoints
    rw [List.subset_nil.mp hhull.subset]
  · have hfits := Box.fits_ofPoints (hhull.nonempty hpoints)
    have hside : ∀ {coordinate : Point ℝ → ℝ} {value : ℝ},
        (∃ point ∈ hull, coordinate point = value) → ∃ point ∈ points, coordinate point = value :=
      fun ⟨point, hmem, hvalue⟩ => ⟨point, hhull.subset hmem, hvalue⟩
    have hwhole : (Box.ofPoints hull).Fits points := by
      refine ⟨fun point hmem => ?_, hside hfits.left, hside hfits.right, hside hfits.below,
        hside hfits.above⟩
      have hfar : ∀ x y : ℝ, 0 < x * x + y * y → ∃ far ∈ hull,
          0 ≤ x * (far.x - point.x) + y * (far.y - point.y) := by
        intro x y hpositive
        have hheading : 0 < (⟨x, y⟩ : Displacement ℝ).dot ⟨x, y⟩ := hpositive
        exact hhull.exists_far hheading hmem
      obtain ⟨left, hleft, hleftmost⟩ := hfar (-1) 0 (by norm_num)
      obtain ⟨right, hright, hrightmost⟩ := hfar 1 0 (by norm_num)
      obtain ⟨low, hlow, hlowest⟩ := hfar 0 (-1) (by norm_num)
      obtain ⟨high, hhigh, hhighest⟩ := hfar 0 1 (by norm_num)
      have hheldLeft := (hfits.holds left hleft).left
      have hheldRight := (hfits.holds right hright).right
      have hheldLow := (hfits.holds low hlow).below
      have hheldHigh := (hfits.holds high hhigh).above
      exact ⟨by linarith, by linarith, by linarith, by linarith⟩
    exact hwhole.eq_ofPoints

end LabelPlacement
