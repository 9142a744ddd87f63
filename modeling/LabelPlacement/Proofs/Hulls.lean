import Mathlib.Data.List.Cycle
import LabelPlacement.Proofs.Headings

/-!
# Convex hulls

The sides of the convex hull of points are the ways between two of them that have all points beside
them (`Side`). From every point at most one side leads on (`Side.unique`), and a hull is a closed
walk along sides (`IsHull`). That `convexHull` walks along sides is kept up by each chain point by
point (`Hull.Follows`). A hull holds the last point along every heading, so any two hulls of the
same points share a point and are the same up to the point they start at (`IsHull.isRotated`).
-/

namespace LabelPlacement

variable {heading : Displacement ℝ} {points hull : List (Point ℝ)}

/-! ### Sides -/

/-- The way from one point to another is a side of the convex hull. -/
structure Side (points : List (Point ℝ)) (start finish : Point ℝ) : Prop where
  start_mem : start ∈ points
  finish_mem : finish ∈ points
  beside : ∀ point ∈ points, start.Beside finish point

/-- At most one side leads on from a point. -/
theorem Side.unique {start finish other : Point ℝ} (hside : Side points start finish)
    (hother : Side points start other) : finish = other := by
  have hturn : start.turn finish other = -start.turn other finish := by
    rw [Point.turn, Point.turn]
    ring
  have hleft := (hside.beside other hother.finish_mem).turn_nonneg
  have hright := (hother.beside finish hside.finish_mem).turn_nonneg
  have hbetween := (hside.beside other hother.finish_mem).resolve_left (by linarith)
  have hback := (hother.beside finish hside.finish_mem).resolve_left (by linarith)
  have hsquares : (other.x - finish.x) ^ 2 + (other.y - finish.y) ^ 2 ≤ 0 := by
    have hsum := add_nonpos hbetween.2 hback.2
    simp only [Displacement.dot_eq, Displacement.between] at hsum
    linarith
  have hx := sq_nonneg (other.x - finish.x)
  have hy := sq_nonneg (other.y - finish.y)
  have hsameX : other.x - finish.x = 0 := pow_eq_zero_iff two_ne_zero |>.mp (by linarith)
  have hsameY : other.y - finish.y = 0 := pow_eq_zero_iff two_ne_zero |>.mp (by linarith)
  exact Point.ext (by linarith) (by linarith)

/-- A side stays one when a point beside it is added. -/
theorem Side.cons {start finish point : Point ℝ} (hside : Side points start finish)
    (hbeside : start.Beside finish point) : Side (point :: points) start finish := by
  refine ⟨List.mem_cons_of_mem _ hside.start_mem, List.mem_cons_of_mem _ hside.finish_mem,
    fun other hother => ?_⟩
  obtain rfl | hother := List.mem_cons.mp hother
  · exact hbeside
  · exact hside.beside other hother

/-- A closed walk along the sides of the convex hull that visits each of its points once. -/
structure IsHull (points hull : List (Point ℝ)) : Prop where
  subset : hull ⊆ points
  nodup : hull.Nodup
  sides : Cycle.Chain (Side points) hull
  nonempty : points ≠ [] → hull ≠ []

/-! ### Chains -/

namespace Hull

/-- The step of a chain from an older to a newer point: a side that leads ahead. -/
def Step (heading : Displacement ℝ) (points : List (Point ℝ)) (newer older : Point ℝ) : Prop :=
  older.Precedes heading newer ∧ Side points older newer

/-- A chain, its newest point first, leads along points from the first one to the last one. -/
structure Follows (heading : Displacement ℝ) (points chain : List (Point ℝ)) : Prop where
  subset : chain ⊆ points
  steps : chain.IsChain (Step heading points)
  newest : ∀ newest ∈ chain.head?, ∀ point ∈ points,
    point = newest ∨ point.Precedes heading newest
  oldest : ∀ oldest ∈ chain.getLast?, ∀ point ∈ points,
    point = oldest ∨ oldest.Precedes heading point
  begun : points ≠ [] → chain ≠ []

variable {chain : List (Point ℝ)} {newer older next : Point ℝ}

/-- A later point to the left of the newest step is to the left of all steps. -/
theorem steps_cons (hlater : ∀ point ∈ points, point.Precedes heading next)
    (hsteps : (newer :: older :: chain).IsChain (Step heading points))
    (hturn : 0 < older.turn newer next) :
    (newer :: older :: chain).IsChain (Step heading (next :: points)) := by
  induction chain generalizing newer older with
  | nil =>
    obtain ⟨⟨hprecedes, hside⟩, -⟩ := List.isChain_cons_cons.mp hsteps
    exact List.isChain_cons_cons.mpr ⟨⟨hprecedes, hside.cons (Or.inl hturn)⟩, .singleton _⟩
  | cons oldest chain ih =>
    obtain ⟨⟨hprecedes, hside⟩, hrest⟩ := List.isChain_cons_cons.mp hsteps
    obtain ⟨hearlier, hfirst⟩ := (List.isChain_cons_cons.mp hrest).1
    refine List.isChain_cons_cons.mpr
      ⟨⟨hprecedes, hside.cons (Or.inl hturn)⟩, ih hrest ?_⟩
    have hstrict :=
      (hfirst.beside newer hside.finish_mem).turn_pos (hearlier.trans hprecedes) hprecedes
    exact Point.turn_pos_of_left hearlier hprecedes (hlater newer hside.finish_mem) hstrict hturn

theorem step_next (hheading : 0 < heading.dot heading)
    (hlater : ∀ point ∈ points, point.Precedes heading next) (hnewer : newer ∈ points)
    (hpassed : ∀ point ∈ points, newer.Precedes heading point → newer.Beside next point)
    (hbehind : ∀ point ∈ points, point.Precedes heading newer → newer.Beside next point) :
    Step heading (next :: points) next newer := by
  refine ⟨hlater newer hnewer, List.mem_cons_of_mem _ hnewer, List.mem_cons_self,
    fun point hmem => ?_⟩
  obtain rfl | hmem := List.mem_cons.mp hmem
  · exact .finish_self newer point
  · obtain rfl | hahead | hback := Point.Precedes.total hheading newer point
    · exact .start_self newer next
    · exact hpassed point hmem hahead
    · exact hbehind point hmem hback

/-- What is left of a chain goes on to the next point. Whenever the newest point is dropped, the
points passed by then stay beside the short cut. -/
theorem steps_trim (hheading : 0 < heading.dot heading)
    (hlater : ∀ point ∈ points, point.Precedes heading next) (hsubset : chain ⊆ points)
    (hsteps : chain.IsChain (Step heading points))
    (hpassed : ∀ newest ∈ chain.head?, ∀ point ∈ points, newest.Precedes heading point →
      newest.Beside next point)
    (holdest : ∀ oldest ∈ chain.getLast?, ∀ point ∈ points,
      point = oldest ∨ oldest.Precedes heading point) :
    (next :: trim next chain).IsChain (Step heading (next :: points)) ∧
      trim next chain <:+ chain := by
  induction chain using trim.induct next with
  | case1 newer older chain hturn =>
    rw [trim, if_pos hturn]
    rw [Point.turnsLeft_iff] at hturn
    obtain ⟨hprecedes, hside⟩ := (List.isChain_cons_cons.mp hsteps).1
    have hnewer := hside.finish_mem
    refine ⟨List.isChain_cons_cons.mpr ⟨?_, steps_cons hlater hsteps hturn⟩, List.suffix_rfl⟩
    refine step_next hheading hlater hnewer (hpassed newer rfl) fun point hmem hback => ?_
    exact Or.inl (Point.turn_pos_of_behind hprecedes (hlater newer hnewer) hback
      (hside.beside point hmem).turn_nonneg hturn)
  | case2 newer older chain hturn ih =>
    rw [trim, if_neg hturn]
    rw [Point.turnsLeft_iff, not_lt] at hturn
    obtain ⟨⟨hprecedes, hside⟩, hrest⟩ := List.isChain_cons_cons.mp hsteps
    have hkept : older :: chain ⊆ points := fun point hmem =>
      hsubset (List.mem_cons_of_mem _ hmem)
    have hshortcut : ∀ newest ∈ (older :: chain).head?, ∀ point ∈ points,
        newest.Precedes heading point → newest.Beside next point := by
      rintro _ ⟨⟩ point hmem hahead
      refine .of_between hahead (hlater point hmem) ?_
      exact Point.turn_nonneg_of_right hprecedes (hlater newer hside.finish_mem) hahead hturn
        (hside.beside point hmem).turn_nonneg
    obtain ⟨hchain, hsuffix⟩ := ih hkept hrest hshortcut holdest
    exact ⟨hchain, hsuffix.trans (List.suffix_cons _ _)⟩
  | case3 chain hshort =>
    cases chain with
    | nil => exact ⟨.singleton _, List.suffix_rfl⟩
    | cons newest rest =>
      obtain rfl : rest = [] := by
        cases rest with
        | nil => rfl
        | cons older rest => exact absurd rfl (hshort newest older rest)
      have hnewest : newest ∈ points := hsubset List.mem_cons_self
      refine ⟨List.isChain_cons_cons.mpr ⟨?_, .singleton _⟩, List.suffix_rfl⟩
      refine step_next hheading hlater hnewest (hpassed newest rfl) fun point hmem hback => ?_
      obtain rfl | hahead := holdest newest rfl point hmem
      · exact absurd hback (Point.Precedes.irrefl point)
      · exact absurd hback hahead.asymm

theorem getLast?_trim (next : Point ℝ) (chain : List (Point ℝ)) :
    (trim next chain).getLast? = chain.getLast? := by
  induction chain using trim.induct next with
  | case1 newer older chain hturn => rw [trim, if_pos hturn]
  | case2 newer older chain hturn ih =>
    rw [trim, if_neg hturn, ih, List.getLast?_cons_cons]
  | case3 chain hshort => rw [trim]; exact hshort

/-- A chain goes on to a later point. -/
theorem Follows.push (hheading : 0 < heading.dot heading) (hfollows : Follows heading points chain)
    (hlater : ∀ point ∈ points, point.Precedes heading next) :
    Follows heading (next :: points) (next :: trim next chain) := by
  have hpassed : ∀ newest ∈ chain.head?, ∀ point ∈ points, newest.Precedes heading point →
      newest.Beside next point := by
    intro newest hnewest point hmem hahead
    obtain rfl | hback := hfollows.newest newest hnewest point hmem
    · exact absurd hahead (Point.Precedes.irrefl point)
    · exact absurd hback hahead.asymm
  obtain ⟨hsteps, hsuffix⟩ :=
    steps_trim hheading hlater hfollows.subset hfollows.steps hpassed hfollows.oldest
  have hkept : trim next chain ⊆ points := fun point hmem =>
    hfollows.subset (hsuffix.subset hmem)
  refine ⟨List.cons_subset_cons next hkept, hsteps, ?_, ?_, fun _ => List.cons_ne_nil _ _⟩
  · rintro _ ⟨⟩ point hmem
    obtain rfl | hmem := List.mem_cons.mp hmem
    · exact Or.inl rfl
    · exact Or.inr (hlater point hmem)
  · intro oldest holdest point hmem
    rw [List.getLast?_cons, getLast?_trim] at holdest
    cases hlast : chain.getLast? with
    | none =>
      have hempty : points = [] := by
        by_contra hpoints
        exact hfollows.begun hpoints (List.getLast?_eq_none_iff.mp hlast)
      rw [hlast] at holdest
      rw [hempty] at hmem
      rw [List.mem_singleton.mp hmem]
      exact Or.inl (Option.some.inj holdest)
    | some last =>
      rw [hlast] at holdest
      obtain rfl : last = oldest := Option.some.inj holdest
      obtain rfl | hmem := List.mem_cons.mp hmem
      · exact Or.inr (hlater last (hfollows.subset (List.mem_of_getLast? hlast)))
      · exact hfollows.oldest last hlast point hmem

/-- The chain over points that are in order along a heading leads along all of them. -/
theorem follows_chain (hheading : 0 < heading.dot heading)
    (hsorted : points.Pairwise (Point.Precedes heading)) :
    Follows heading points.reverse (Hull.chain points) := by
  induction points using List.reverseRecOn with
  | nil => exact ⟨List.Subset.refl _, .nil, nofun, nofun, fun hnone => absurd rfl hnone⟩
  | append_singleton points next ih =>
    obtain ⟨hpoints, -, hlater⟩ := List.pairwise_append.mp hsorted
    rw [List.reverse_append, chain, List.foldl_append]
    refine (ih hpoints).push hheading fun point hmem => ?_
    exact hlater point (List.mem_reverse.mp hmem) next (List.mem_singleton.mpr rfl)

/-! ### Points in order -/

section Repetitions

variable {ι : Type} [BEq ι] [LawfulBEq ι] {before : ι → ι → Prop}

theorem loop_eraseRepsBy (first : ι) (rest kept : List ι) :
    List.eraseRepsBy.loop (· == ·) first rest kept =
      kept.reverse ++ (first :: rest).eraseReps := by
  induction rest generalizing first kept with
  | nil => simp [List.eraseReps, List.eraseRepsBy, List.eraseRepsBy.loop]
  | cons second rest ih =>
    have hunfold : ∀ kept : List ι, List.eraseRepsBy.loop (· == ·) first (second :: rest) kept =
        if first == second then List.eraseRepsBy.loop (· == ·) first rest kept
        else List.eraseRepsBy.loop (· == ·) second rest (first :: kept) := by
      intro kept
      rw [List.eraseRepsBy.loop]
      split <;> simp_all
    rw [hunfold, List.eraseReps, List.eraseRepsBy, hunfold]
    split
    · rw [ih, ih, List.reverse_nil, List.nil_append]
    · rw [ih, ih]
      simp

theorem eraseReps_cons_cons (first second : ι) (rest : List ι) :
    (first :: second :: rest).eraseReps =
      if first == second then (second :: rest).eraseReps
      else first :: (second :: rest).eraseReps := by
  have hloop : (first :: second :: rest).eraseReps =
      List.eraseRepsBy.loop (· == ·) first (second :: rest) [] := rfl
  rw [hloop, List.eraseRepsBy.loop]
  split
  · rename_i hsame
    rw [loop_eraseRepsBy, if_pos hsame, eq_of_beq hsame]
    rfl
  · rename_i hother
    rw [loop_eraseRepsBy, hother]
    rfl

theorem mem_eraseReps {element : ι} {elements : List ι} :
    element ∈ elements.eraseReps ↔ element ∈ elements := by
  induction elements with
  | nil => rfl
  | cons first rest ih =>
    cases rest with
    | nil => rfl
    | cons second rest =>
      rw [eraseReps_cons_cons]
      split
      · rename_i hsame
        rw [ih, eq_of_beq hsame]
        simp
      · rw [List.mem_cons, ih]
        exact List.mem_cons.symm

theorem pairwise_eraseReps (htrans : ∀ {first second third : ι}, before first second →
    before second third → before first third) {elements : List ι}
    (hsorted : elements.Pairwise fun first second => first = second ∨ before first second) :
    elements.eraseReps.Pairwise before := by
  induction elements with
  | nil => exact .nil
  | cons first rest ih =>
    obtain ⟨hfirst, hrest⟩ := List.pairwise_cons.mp hsorted
    cases rest with
    | nil => exact List.pairwise_singleton _ _
    | cons second rest =>
      rw [eraseReps_cons_cons]
      split
      · exact ih hrest
      · rename_i hother
        refine List.pairwise_cons.mpr ⟨fun element hmem => ?_, ih hrest⟩
        have hsecond := (hfirst second List.mem_cons_self).resolve_left (by simpa using hother)
        obtain rfl | hlater := List.mem_cons.mp (mem_eraseReps.mp hmem)
        · exact hsecond
        · obtain rfl | hbefore := (List.pairwise_cons.mp hrest).1 element hlater
          · exact hsecond
          · exact htrans hsecond hbefore

end Repetitions

instance : LawfulBEq (Point ℝ) where
  eq_of_beq {left right} hequal := by
    have hboth : (left.x == right.x && left.y == right.y) = true := hequal
    rw [Bool.and_eq_true, beq_iff_eq, beq_iff_eq] at hboth
    exact Point.ext hboth.1 hboth.2
  rfl {point} := by
    change (point.x == point.x && point.y == point.y) = true
    simp

/-- From left to right. -/
def rightward : Displacement ℝ := ⟨1, 0⟩

/-- From right to left. -/
def leftward : Displacement ℝ := ⟨-1, 0⟩

theorem precedes_rightward_iff {left right : Point ℝ} :
    left.Precedes rightward right ↔ left.x < right.x ∨ left.x = right.x ∧ left.y < right.y := by
  have hdot : rightward.dot (.between left right) = right.x - left.x := by
    simp [Displacement.dot_eq, Displacement.between, rightward]
  have hcross : rightward.cross (.between left right) = right.y - left.y := by
    simp [Displacement.cross_eq, Displacement.between, rightward]
  rw [Point.Precedes, Ahead, LexPos, hdot, hcross, sub_pos, sub_pos, sub_eq_zero]
  exact or_congr_right (and_congr_left fun _ => eq_comm)

theorem precedes_leftward_iff {left right : Point ℝ} :
    left.Precedes leftward right ↔ right.Precedes rightward left := by
  have hdot : leftward.dot (.between left right) = rightward.dot (.between right left) := by
    simp [Displacement.dot_eq, Displacement.between, rightward, leftward]
  have hcross : leftward.cross (.between left right) = rightward.cross (.between right left) := by
    simp [Displacement.cross_eq, Displacement.between, rightward, leftward]
  rw [Point.Precedes, Point.Precedes, Ahead, Ahead, hdot, hcross]

theorem comesBefore_iff {left right : Point ℝ} :
    comesBefore left right = true ↔ left = right ∨ left.Precedes rightward right := by
  have hcompare : comesBefore left right =
      ((compare left.x right.x).then (compare left.y right.y)).isLE := rfl
  rw [hcompare, precedes_rightward_iff]
  obtain hlt | heq | hgt := lt_trichotomy left.x right.x
  · rw [compare_lt_iff_lt.mpr hlt]
    simp [hlt]
  · rw [compare_eq_iff_eq.mpr heq]
    obtain hbelow | hsame | habove := lt_trichotomy left.y right.y
    · rw [compare_lt_iff_lt.mpr hbelow]
      simp [heq, hbelow]
    · rw [compare_eq_iff_eq.mpr hsame]
      simp [Point.ext heq hsame]
    · rw [compare_gt_iff_gt.mpr habove]
      simp [heq, habove.le, Point.ext_iff, habove.ne']
  · rw [compare_gt_iff_gt.mpr hgt]
    simp [hgt.le, Point.ext_iff, hgt.ne']

theorem comesBefore_trans (first second third : Point ℝ) (hfirst : comesBefore first second = true)
    (hsecond : comesBefore second third = true) : comesBefore first third = true := by
  rw [comesBefore_iff] at hfirst hsecond ⊢
  obtain rfl | hfirst := hfirst
  · exact hsecond
  · obtain rfl | hsecond := hsecond
    · exact Or.inr hfirst
    · exact Or.inr (hfirst.trans hsecond)

theorem rightward_pos : 0 < rightward.dot rightward := by
  simp [Displacement.dot_eq, rightward]

theorem leftward_pos : 0 < leftward.dot leftward := by
  simp [Displacement.dot_eq, leftward]

theorem comesBefore_total (first second : Point ℝ) :
    (comesBefore first second || comesBefore second first) = true := by
  rw [Bool.or_eq_true, comesBefore_iff, comesBefore_iff]
  obtain hsame | hbefore | hafter := Point.Precedes.total rightward_pos first second
  · exact Or.inl (Or.inl hsame)
  · exact Or.inl (Or.inr hbefore)
  · exact Or.inr (Or.inr hafter)

theorem mem_sorted {point : Point ℝ} : point ∈ sorted points ↔ point ∈ points := by
  rw [sorted, mem_eraseReps, List.mem_mergeSort]

theorem pairwise_sorted (points : List (Point ℝ)) :
    (sorted points).Pairwise (Point.Precedes rightward) := by
  have hsorted : (points.mergeSort comesBefore).Pairwise fun first second =>
      first = second ∨ first.Precedes rightward second :=
    (List.pairwise_mergeSort comesBefore_trans comesBefore_total points).imp comesBefore_iff.mp
  rw [sorted]
  exact pairwise_eraseReps (fun hfirst hsecond => hfirst.trans hsecond) hsorted

/-! ### The closed walk -/

theorem Follows.of_mem_iff {others : List (Point ℝ)} (hfollows : Follows heading points chain)
    (hmem : ∀ point, point ∈ others ↔ point ∈ points) : Follows heading others chain where
  subset point hpoint := (hmem point).mpr (hfollows.subset hpoint)
  steps := hfollows.steps.imp fun _ _ ⟨hprecedes, hside⟩ =>
    ⟨hprecedes, (hmem _).mpr hside.start_mem, (hmem _).mpr hside.finish_mem,
      fun point hpoint => hside.beside point ((hmem point).mp hpoint)⟩
  newest newest hnewest point hpoint :=
    hfollows.newest newest hnewest point ((hmem point).mp hpoint)
  oldest oldest holdest point hpoint :=
    hfollows.oldest oldest holdest point ((hmem point).mp hpoint)
  begun hothers := hfollows.begun fun hnone => by
    obtain ⟨point, hpoint⟩ := List.exists_mem_of_ne_nil others hothers
    rw [hmem, hnone] at hpoint
    cases hpoint

/-- The points of a chain in the order of the walk, and the point that it leads to. -/
theorem Follows.exists_eq (hfollows : Follows heading points chain) (hpoints : points ≠ []) :
    ∃ newest, chain = newest :: chain.tail ∧
      (chain.tail.reverse ++ [newest]).IsChain fun start finish => Step heading points finish start
      := by
  obtain ⟨newest, rest, rfl⟩ := List.exists_cons_of_ne_nil (hfollows.begun hpoints)
  refine ⟨newest, rfl, ?_⟩
  rw [List.tail_cons, ← List.reverse_cons, List.isChain_reverse]
  exact hfollows.steps

/-- A chain starts at the first point. -/
theorem Follows.exists_reverse_eq (hfollows : Follows heading points chain) {first : Point ℝ}
    (hmem : first ∈ points)
    (hfirst : ∀ point ∈ points, point = first ∨ first.Precedes heading point)
    (hnewest : chain.head? ≠ some first) : ∃ rest, chain.tail.reverse = first :: rest := by
  obtain ⟨newest, rest, rfl⟩ :=
    List.exists_cons_of_ne_nil (hfollows.begun (List.ne_nil_of_mem hmem))
  have hlast : (newest :: rest).getLast? = some first := by
    obtain ⟨oldest, holdest⟩ := Option.ne_none_iff_exists'.mp
      (mt List.getLast?_eq_none_iff.mp (List.cons_ne_nil newest rest))
    have holdestMem := hfollows.subset (List.mem_of_getLast? holdest)
    obtain rfl | hafter := hfirst oldest holdestMem
    · exact holdest
    · obtain rfl | hbefore := hfollows.oldest oldest holdest first hmem
      · exact holdest
      · exact absurd hbefore hafter.asymm
  cases hrest : rest.getLast? with
  | none =>
    rw [List.getLast?_cons, hrest] at hlast
    exact absurd hlast hnewest
  | some oldest =>
    rw [List.getLast?_cons, hrest] at hlast
    obtain rfl : oldest = first := Option.some.inj hlast
    obtain ⟨front, hfront⟩ := List.getLast?_eq_some_iff.mp hrest
    exact ⟨front.reverse, by rw [List.tail_cons, hfront, List.reverse_append]; rfl⟩

theorem nodup_of_isChain {walk : List (Point ℝ)} (hwalk : walk.IsChain (Point.Precedes heading)) :
    walk.Nodup := by
  have : IsTrans (Point ℝ) (Point.Precedes heading) :=
    ⟨fun _ _ _ hfirst hsecond => hfirst.trans hsecond⟩
  exact hwalk.pairwise.imp Point.Precedes.ne

theorem exists_next_of_mem {ι : Type} {next : ι → ι → Prop} {walk : List ι} {last element : ι}
    (hwalk : (walk ++ [last]).IsChain next) (hmem : element ∈ walk) :
    ∃ other ∈ walk ++ [last], next element other := by
  induction walk with
  | nil => cases hmem
  | cons first rest ih =>
    have hrest : (rest ++ [last]).IsChain next := hwalk.tail
    obtain rfl | hmem := List.mem_cons.mp hmem
    · cases rest with
      | nil => exact ⟨last, by simp, (List.isChain_cons_cons.mp hwalk).1⟩
      | cons second rest => exact ⟨second, by simp, (List.isChain_cons_cons.mp hwalk).1⟩
    · obtain ⟨other, hother, hnext⟩ := ih hrest hmem
      exact ⟨other, List.mem_cons_of_mem _ hother, hnext⟩

theorem exists_previous_of_mem {ι : Type} {next : ι → ι → Prop} {walk : List ι} {first element : ι}
    (hwalk : (first :: walk).IsChain next) (hmem : element ∈ walk) :
    ∃ other ∈ first :: walk, next other element := by
  induction walk generalizing first with
  | nil => cases hmem
  | cons second rest ih =>
    obtain ⟨hnext, hrest⟩ := List.isChain_cons_cons.mp hwalk
    obtain rfl | hmem := List.mem_cons.mp hmem
    · exact ⟨first, List.mem_cons_self, hnext⟩
    · obtain ⟨other, hother, hprevious⟩ := ih hrest hmem
      exact ⟨other, List.mem_cons_of_mem _ hother, hprevious⟩

/-- Of several points, the first and the last one are not the same. -/
theorem ends_ne {first last one other : Point ℝ}
    (hleftmost : ∀ point ∈ points, point = first ∨ first.Precedes rightward point)
    (hrightmost : ∀ point ∈ points, point = last ∨ last.Precedes leftward point)
    (hone : one ∈ points) (hother : other ∈ points) (hmany : one ≠ other) : first ≠ last := by
  rintro rfl
  have hsame : ∀ point ∈ points, point = first := by
    intro point hmem
    obtain hsame | hafter := hleftmost point hmem
    · exact hsame
    · refine (hrightmost point hmem).resolve_right fun hbefore => ?_
      exact hafter.asymm (precedes_leftward_iff.mp hbefore)
  exact hmany ((hsame one hone).trans (hsame other hother).symm)

/-- The chain from left to right and the one back make a closed walk along the sides. -/
theorem isHull_append {lower upper : List (Point ℝ)} (hlower : Follows rightward points lower)
    (hupper : Follows leftward points upper) {one other : Point ℝ} (hone : one ∈ points)
    (hother : other ∈ points) (hmany : one ≠ other) :
    IsHull points (lower.tail.reverse ++ upper.tail.reverse) := by
  have hpoints := List.ne_nil_of_mem hone
  obtain ⟨last, hlast, hwalk⟩ := hlower.exists_eq hpoints
  obtain ⟨first, hfirst, hback⟩ := hupper.exists_eq hpoints
  have hhead : lower.head? = some last := by rw [hlast, List.head?_cons]
  have hheadBack : upper.head? = some first := by rw [hfirst, List.head?_cons]
  have hrightmost : ∀ point ∈ points, point = last ∨ last.Precedes leftward point := by
    intro point hmem
    rw [precedes_leftward_iff]
    exact hlower.newest last hhead point hmem
  have hleftmost : ∀ point ∈ points, point = first ∨ first.Precedes rightward point := by
    intro point hmem
    rw [← precedes_leftward_iff]
    exact hupper.newest first hheadBack point hmem
  have hends := ends_ne hleftmost hrightmost hone hother hmany
  have hfirstMem : first ∈ points := hupper.subset (List.mem_of_head? hheadBack)
  have hlastMem : last ∈ points := hlower.subset (List.mem_of_head? hhead)
  obtain ⟨there, hthere⟩ := hlower.exists_reverse_eq hfirstMem hleftmost
    (by rw [hhead]; exact fun hsame => hends (Option.some.inj hsame).symm)
  obtain ⟨home, hhome⟩ := hupper.exists_reverse_eq hlastMem hrightmost
    (by rw [hheadBack]; exact fun hsame => hends (Option.some.inj hsame))
  refine ⟨?_, ?_, ?_, fun _ => ?_⟩
  · intro point hmem
    obtain hmem | hmem := List.mem_append.mp hmem
    · exact hlower.subset (List.mem_of_mem_tail (List.mem_reverse.mp hmem))
    · exact hupper.subset (List.mem_of_mem_tail (List.mem_reverse.mp hmem))
  · refine List.nodup_append.mpr ⟨?_, ?_, ?_⟩
    · exact (nodup_of_isChain (hwalk.imp fun _ _ hstep => hstep.1)).of_append_left
    · exact (nodup_of_isChain (hback.imp fun _ _ hstep => hstep.1)).of_append_left
    · -- A point on both chains would have one side lead on from it to the right and to the left.
      rintro point hpoint _ hsame rfl
      obtain ⟨next, -, hahead, hside⟩ := exists_next_of_mem hwalk hpoint
      obtain ⟨back, -, hbehind, hsideBack⟩ := exists_next_of_mem hback hsame
      obtain rfl := hside.unique hsideBack
      exact hahead.asymm (precedes_leftward_iff.mp hbehind)
  · have hsides : (first :: there ++ [last]).IsChain (Side points) := by
      rw [hthere] at hwalk
      exact hwalk.imp fun _ _ hstep => hstep.2
    have hsidesBack : (last :: (home ++ [first])).IsChain (Side points) := by
      rw [hhome] at hback
      exact hback.imp fun _ _ hstep => hstep.2
    have hclosed : (first :: there ++ last :: (home ++ [first])).IsChain (Side points) :=
      List.isChain_split.mpr ⟨hsides, hsidesBack⟩
    rw [hthere, hhome, List.cons_append, Cycle.chain_coe_cons]
    simpa using hclosed
  · rw [hthere]
    exact List.cons_ne_nil _ _

end Hull

/-- The way between two points is a side where there are no others. -/
theorem side_of_pair {one other : Point ℝ} (hone : one ∈ points) (hother : other ∈ points)
    (hall : ∀ point ∈ points, point = one ∨ point = other) : Side points one other := by
  refine ⟨hone, hother, fun point hmem => ?_⟩
  obtain rfl | rfl := hall point hmem
  · exact .start_self point other
  · exact .finish_self one point

/-- **Convex hulls.** What is computed as a convex hull is one. -/
theorem isHull_convexHull (points : List (Point ℝ)) : IsHull points (convexHull points) := by
  have hmem : ∀ point, point ∈ points ↔ point ∈ Hull.sorted points :=
    fun point => Hull.mem_sorted.symm
  have hsorted := Hull.pairwise_sorted points
  have hnodup := hsorted.imp Point.Precedes.ne
  rw [convexHull]
  generalize Hull.sorted points = sorted at hmem hsorted hnodup
  have hnonempty : points ≠ [] → sorted ≠ [] := by
    rintro hpoints rfl
    obtain ⟨point, hpoint⟩ := List.exists_mem_of_ne_nil points hpoints
    exact List.not_mem_nil ((hmem point).mp hpoint)
  match sorted with
  | [] => exact ⟨List.nil_subset _, .nil, Cycle.Chain.nil _, hnonempty⟩
  | [only] =>
    have hall : ∀ point ∈ points, point = only := fun point hpoint => by
      simpa using (hmem point).mp hpoint
    have honly : only ∈ points := (hmem only).mpr List.mem_cons_self
    refine ⟨fun point hpoint => (hmem point).mpr hpoint, hnodup, ?_, hnonempty⟩
    exact Cycle.chain_singleton _ _ |>.mpr
      (side_of_pair honly honly fun point hpoint => Or.inl (hall point hpoint))
  | [one, other] =>
    have hall : ∀ point ∈ points, point = one ∨ point = other := fun point hpoint => by
      simpa using (hmem point).mp hpoint
    have hone : one ∈ points := (hmem one).mpr (by simp)
    have hother : other ∈ points := (hmem other).mpr (by simp)
    refine ⟨fun point hpoint => (hmem point).mpr hpoint, hnodup, ?_, hnonempty⟩
    refine (Cycle.chain_coe_cons _ _ _).mpr (List.isChain_cons_cons.mpr ⟨?_,
      List.isChain_cons_cons.mpr ⟨?_, .singleton _⟩⟩)
    · exact side_of_pair hone hother hall
    · exact side_of_pair hother hone fun point hpoint => (hall point hpoint).symm
  | one :: other :: more :: rest =>
    have hone : one ∈ points := (hmem one).mpr (by simp)
    have hother : other ∈ points := (hmem other).mpr (by simp)
    have hreversed :
        (one :: other :: more :: rest).reverse.Pairwise (Point.Precedes Hull.leftward) :=
      List.pairwise_reverse.mpr (hsorted.imp Hull.precedes_leftward_iff.mpr)
    have hlower : Hull.Follows Hull.rightward points (Hull.chain (one :: other :: more :: rest)) :=
      (Hull.follows_chain Hull.rightward_pos hsorted).of_mem_iff
        fun point => (hmem point).trans List.mem_reverse.symm
    have hupper : Hull.Follows Hull.leftward points
        (Hull.chain (one :: other :: more :: rest).reverse) := by
      refine (Hull.follows_chain Hull.leftward_pos hreversed).of_mem_iff fun point => ?_
      rw [List.reverse_reverse]
      exact hmem point
    rw [if_neg (by simp)]
    refine Hull.isHull_append hlower hupper hone hother ?_
    exact (List.pairwise_cons.mp hnodup).1 other List.mem_cons_self

end LabelPlacement
