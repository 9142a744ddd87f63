import LabelPlacement.Proofs.Hulls

/-!
# Extremes of a hull

A hull holds the last point along every heading (`IsHull.last_mem`): a later point would be to the
left of both sides at the hull's own last point, and these turn left there. So any two hulls of the
same points share a point, and walk along the same sides from there (`IsHull.isRotated`). Moving
points without deforming them moves their hull (`Rigid.isHull_map`).
-/

namespace LabelPlacement

variable {heading : Displacement ℝ} {points hull other : List (Point ℝ)}

theorem exists_last (hheading : 0 < heading.dot heading) (hpoints : points ≠ []) :
    ∃ last ∈ points, ∀ point ∈ points, point = last ∨ point.Precedes heading last := by
  induction points with
  | nil => exact absurd rfl hpoints
  | cons first rest ih =>
    by_cases hrest : rest = []
    · subst hrest
      exact ⟨first, List.mem_cons_self, fun point hmem => Or.inl (List.mem_singleton.mp hmem)⟩
    · obtain ⟨last, hlast, hall⟩ := ih hrest
      obtain rfl | hbefore | hafter := Point.Precedes.total hheading first last
      · refine ⟨first, List.mem_cons_self, fun point hmem => ?_⟩
        obtain rfl | hmem := List.mem_cons.mp hmem
        · exact Or.inl rfl
        · exact hall point hmem
      · refine ⟨last, List.mem_cons_of_mem _ hlast, fun point hmem => ?_⟩
        obtain rfl | hmem := List.mem_cons.mp hmem
        · exact Or.inr hbefore
        · exact hall point hmem
      · refine ⟨first, List.mem_cons_self, fun point hmem => ?_⟩
        obtain rfl | hmem := List.mem_cons.mp hmem
        · exact Or.inl rfl
        · obtain rfl | hearlier := hall point hmem
          · exact Or.inr hafter
          · exact Or.inr (hearlier.trans hafter)

namespace IsHull

/-- The walk around a hull, from one of its points on and back to it. -/
theorem exists_walk (hhull : IsHull points hull) {start : Point ℝ} (hmem : start ∈ hull) :
    ∃ rest, hull ~r (start :: rest) ∧ (start :: rest).Nodup ∧
      (start :: (rest ++ [start])).IsChain (Side points) := by
  obtain ⟨front, back, rfl⟩ := List.append_of_mem hmem
  have hrotated : front ++ start :: back ~r start :: (back ++ front) := by
    rw [← List.cons_append]
    exact List.isRotated_append
  refine ⟨back ++ front, hrotated, hrotated.perm.nodup_iff.mp hhull.nodup, ?_⟩
  rw [← Cycle.chain_coe_cons, ← Cycle.coe_eq_coe.mpr hrotated]
  exact hhull.sides

theorem exists_neighbours (hhull : IsHull points hull) {point : Point ℝ} (hmem : point ∈ hull) :
    ∃ previous ∈ hull, ∃ next ∈ hull, Side points previous point ∧ Side points point next := by
  obtain ⟨rest, hrotated, -, hwalk⟩ := hhull.exists_walk hmem
  have hkept : ∀ other ∈ point :: (rest ++ [point]), other ∈ hull := by
    intro other hother
    refine hrotated.mem_iff.mpr ?_
    simp only [List.mem_cons, List.mem_append, List.not_mem_nil, or_false] at hother ⊢
    tauto
  obtain ⟨previous, hprevious, hside⟩ :=
    Hull.exists_previous_of_mem hwalk (List.mem_append_right rest List.mem_cons_self)
  obtain ⟨next, hnext, hsideNext⟩ := Hull.exists_next_of_mem
    (show (point :: rest ++ [point]).IsChain (Side points) from hwalk) List.mem_cons_self
  exact ⟨previous, hkept previous hprevious, next, hkept next hnext, hside, hsideNext⟩

/-- **Extremes.** A hull holds the last point along a heading. -/
theorem last_mem (hhull : IsHull points hull) (hheading : 0 < heading.dot heading) {last : Point ℝ}
    (hlast : last ∈ points) (hall : ∀ point ∈ points, point = last ∨ point.Precedes heading last) :
    last ∈ hull := by
  by_contra houtside
  obtain ⟨far, hfar, hfarthest⟩ := exists_last hheading (hhull.nonempty (List.ne_nil_of_mem hlast))
  have hahead : far.Precedes heading last := by
    refine (hall far (hhull.subset hfar)).resolve_left ?_
    rintro rfl
    exact houtside hfar
  obtain ⟨previous, hprevious, next, hnext, hside, hsideNext⟩ := hhull.exists_neighbours hfar
  have hlater : ∀ point ∈ hull, point.Precedes heading last := by
    intro point hmem
    obtain rfl | hbefore := hfarthest point hmem
    · exact hahead
    · exact hbefore.trans hahead
  -- The last point is to the left of both sides at the hull's own last point.
  have hleft : 0 < previous.turn far last :=
    (hside.beside last hlast).turn_pos (hlater previous hprevious) hahead
  have hleftNext : 0 < far.turn next last :=
    (hsideNext.beside last hlast).turn_pos hahead (hlater next hnext)
  have hcoming : previous.Precedes heading far := by
    refine (hfarthest previous hprevious).resolve_left ?_
    rintro rfl
    simp [Point.turn] at hleft
  have hgoing : next.Precedes heading far := by
    refine (hfarthest next hnext).resolve_left ?_
    rintro rfl
    simp [Point.turn] at hleftNext
  have hfirst : 0 < (Displacement.between previous far).cross (.between far last) := by
    rwa [← Point.turn_eq_cross]
  have hsecond : 0 < (Displacement.between far last).cross (.between next far) := by
    calc 0 < far.turn next last := hleftNext
      _ = (Displacement.between far last).cross (.between next far) := by
          simp only [Point.turn, Displacement.cross_eq, Displacement.between]
          ring
  have hleftTurn : 0 < (Displacement.between previous far).cross (.between next far) :=
    Ahead.cross_pos_trans hcoming hahead hgoing hfirst.le hsecond
  -- But from the one side into the other, the hull turns left as well.
  have hbeside := (hsideNext.beside previous (hhull.subset hprevious)).turn_nonneg
  have hrightTurn : far.turn next previous =
      -(Displacement.between previous far).cross (.between next far) := by
    simp only [Point.turn, Displacement.cross_eq, Displacement.between]
    ring
  linarith

/-- Some point of a hull lies at least as far in a direction. -/
theorem exists_far (hhull : IsHull points hull) (hheading : 0 < heading.dot heading)
    {point : Point ℝ} (hmem : point ∈ points) :
    ∃ far ∈ hull, 0 ≤ heading.dot (.between point far) := by
  obtain ⟨last, hlast, hall⟩ := exists_last hheading (List.ne_nil_of_mem hmem)
  refine ⟨last, hhull.last_mem hheading hlast hall, ?_⟩
  obtain rfl | hbefore := hall point hmem
  · simp [Displacement.dot_eq, Displacement.between]
  · exact hbefore.first_nonneg

end IsHull

/-! ### One hull -/

/-- Walks that start together and go on to the same points end together. -/
theorem walk_unique {ι : Type} {next : ι → ι → Prop}
    (hunique : ∀ element first second, next element first → next element second → first = second)
    {start finish : ι} {walk other : List ι} (hwalk : (start :: (walk ++ [finish])).IsChain next)
    (hother : (start :: (other ++ [finish])).IsChain next) (hmem : finish ∉ walk)
    (hotherMem : finish ∉ other) : walk = other := by
  induction walk generalizing start other with
  | nil =>
    have hends := (List.isChain_cons_cons.mp hwalk).1
    cases other with
    | nil => rfl
    | cons second rest =>
      obtain rfl := hunique _ _ _ hends (List.isChain_cons_cons.mp hother).1
      exact absurd List.mem_cons_self hotherMem
  | cons first walk ih =>
    obtain ⟨hfirst, hrest⟩ := List.isChain_cons_cons.mp hwalk
    cases other with
    | nil =>
      obtain rfl := hunique _ _ _ hfirst (List.isChain_cons_cons.mp hother).1
      exact absurd List.mem_cons_self hmem
    | cons second other =>
      obtain ⟨hsecond, hotherRest⟩ := List.isChain_cons_cons.mp hother
      obtain rfl := hunique _ _ _ hfirst hsecond
      rw [ih hrest hotherRest (fun hin => hmem (List.mem_cons_of_mem _ hin))
        fun hin => hotherMem (List.mem_cons_of_mem _ hin)]

/-- **One hull.** Two hulls of the same points differ at most in the point they start at. -/
theorem IsHull.isRotated (hhull : IsHull points hull) (hother : IsHull points other) :
    hull ~r other := by
  by_cases hpoints : points = []
  · subst hpoints
    rw [List.subset_nil.mp hhull.subset, List.subset_nil.mp hother.subset]
  · obtain ⟨last, hlast, hall⟩ := exists_last Hull.rightward_pos hpoints
    obtain ⟨walk, hrotated, hnodup, hwalk⟩ :=
      hhull.exists_walk (hhull.last_mem Hull.rightward_pos hlast hall)
    obtain ⟨otherWalk, hotherRotated, hotherNodup, hotherWalk⟩ :=
      hother.exists_walk (hother.last_mem Hull.rightward_pos hlast hall)
    have hunique : ∀ start first second, Side points start first → Side points start second →
        first = second := fun _ _ _ hfirst hsecond => hfirst.unique hsecond
    have hsame : walk = otherWalk :=
      walk_unique hunique hwalk hotherWalk (List.nodup_cons.mp hnodup).1
        (List.nodup_cons.mp hotherNodup).1
    rw [hsame] at hrotated
    exact hrotated.trans hotherRotated.symm

/-! ### Moved hulls -/

/-- The points are moved without being deformed or turned over. -/
structure Rigid (move : Point ℝ → Point ℝ) : Prop where
  turn : ∀ first second third,
    (move first).turn (move second) (move third) = first.turn second third
  dot : ∀ first second third,
    (Displacement.between (move first) (move third)).dot (.between (move second) (move third)) =
      (Displacement.between first third).dot (.between second third)

theorem rigid_translate (displacement : Displacement ℝ) : Rigid (·.translate displacement) where
  turn first second third := by
    simp only [Point.turn, Point.translate]
    ring
  dot first second third := by
    simp only [Displacement.dot_eq, Displacement.between, Point.translate]
    ring

theorem rigid_rotateAbout (centre : Point ℝ) {rotation : Rotation ℝ}
    (hrotation : rotation.cos * rotation.cos + rotation.sin * rotation.sin = 1) :
    Rigid (·.rotateAbout centre rotation) where
  turn first second third := by
    simp only [Point.turn, Point.rotateAbout, Point.translate, Displacement.rotate,
      Displacement.between]
    linear_combination ((second.x - first.x) * (third.y - first.y) -
      (second.y - first.y) * (third.x - first.x)) * hrotation
  dot first second third := by
    simp only [Displacement.dot_eq, Point.rotateAbout, Point.translate, Displacement.rotate,
      Displacement.between]
    linear_combination ((third.x - first.x) * (third.x - second.x) +
      (third.y - first.y) * (third.y - second.y)) * hrotation

namespace Rigid

variable {move : Point ℝ → Point ℝ}

theorem injective (hrigid : Rigid move) : Function.Injective move := by
  intro left right hsame
  have hdot := hrigid.dot left left right
  rw [hsame] at hdot
  simp only [Displacement.dot_eq, Displacement.between, sub_self, mul_zero, add_zero] at hdot
  have hx : right.x - left.x = 0 := by
    nlinarith [mul_self_nonneg (right.x - left.x), mul_self_nonneg (right.y - left.y)]
  have hy : right.y - left.y = 0 := by
    nlinarith [mul_self_nonneg (right.x - left.x), mul_self_nonneg (right.y - left.y)]
  exact Point.ext (by linarith) (by linarith)

theorem beside_iff (hrigid : Rigid move) {start finish point : Point ℝ} :
    (move start).Beside (move finish) (move point) ↔ start.Beside finish point := by
  rw [Point.Beside, Point.Beside, hrigid.turn, hrigid.dot]

theorem side_map (hrigid : Rigid move) {start finish : Point ℝ} (hside : Side points start finish) :
    Side (points.map move) (move start) (move finish) := by
  refine ⟨List.mem_map_of_mem hside.start_mem, List.mem_map_of_mem hside.finish_mem, ?_⟩
  intro image himage
  obtain ⟨point, hmem, rfl⟩ := List.mem_map.mp himage
  exact hrigid.beside_iff.mpr (hside.beside point hmem)

/-- A hull that is moved along with the points is a hull of the moved points. -/
theorem isHull_map (hrigid : Rigid move) (hhull : IsHull points hull) :
    IsHull (points.map move) (hull.map move) where
  subset := List.map_subset move hhull.subset
  nodup := hhull.nodup.map hrigid.injective
  sides := by
    rw [← Cycle.map_coe, Cycle.chain_map]
    exact hhull.sides.imp fun _ _ hside => hrigid.side_map hside
  nonempty hpoints := by
    have hsome : points ≠ [] := fun hnone => hpoints (by rw [hnone, List.map_nil])
    simpa using hhull.nonempty hsome

end Rigid

end LabelPlacement
