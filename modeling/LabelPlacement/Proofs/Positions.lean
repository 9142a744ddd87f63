import Mathlib.Analysis.SpecialFunctions.Complex.Arg
import LabelPlacement.Placement.Along
import LabelPlacement.Proofs.Reals

/-!
# The positions of a search along a line

A search has two fronts, which leave the initial position by equal steps and stop at the ends of the
range. Both fronts are the same list up to a change of sign (`positionsBehind_eq_map`), so that what
is shown of one holds of the other: put behind the initial position it is a chain of neighbours that
are at most a step and the tolerance apart (`isChain_frontAhead`), it ends at the end of the range
(`mem_frontAhead`), and it has no more positions than steps fit into its part of the range
(`length_frontAhead_le`).

The number of rounds is bounded in the definition of the positions. `LineSearch` is the search
without that bound, round by round, and `LineSearch.exists_rounds` shows that it stops and has found
the same positions.
-/

namespace LabelPlacement

theorem tolerance_pos : (0 : ℝ) < tolerance := by
  change (0 : ℝ) < 1e-9
  norm_num

/-! ### Two lists in turn -/

theorem alternate_nil_right {ι : Type} (left : List ι) : alternate left [] = left := by
  cases left with
  | nil => rw [alternate]
  | cons first rest => rw [alternate, alternate]

theorem alternate_perm {ι : Type} (left right : List ι) :
    (alternate left right).Perm (left ++ right) := by
  induction left, right using alternate.induct with
  | case1 others => rw [alternate, List.nil_append]
  | case2 first rest others ih =>
    rw [alternate, List.cons_append]
    exact (ih.trans List.perm_append_comm).cons first

/-- Two lists that a condition tells apart are found again in their alternation. -/
theorem filter_alternate {ι : Type} (condition : ι → Bool) (left right : List ι) :
    ((∀ x ∈ left, condition x = true) → (∀ x ∈ right, condition x = false) →
      (alternate left right).filter condition = left) ∧
    ((∀ x ∈ left, condition x = false) → (∀ x ∈ right, condition x = true) →
      (alternate left right).filter condition = right) := by
  induction left, right using alternate.induct with
  | case1 others =>
    rw [alternate]
    exact ⟨fun _ hothers => List.filter_eq_nil_iff.mpr fun x hx => by simp [hothers x hx],
      fun _ hothers => List.filter_eq_self.mpr hothers⟩
  | case2 first rest others ih =>
    rw [alternate]
    refine ⟨fun hleft hright => ?_, fun hleft hright => ?_⟩
    · rw [List.forall_mem_cons] at hleft
      rw [List.filter_cons_of_pos hleft.1, ih.2 hright hleft.2]
    · rw [List.forall_mem_cons] at hleft
      rw [List.filter_cons_of_neg (by simp [hleft.1]), ih.1 hright hleft.2]

/-! ### One front of the search -/

section Front

variable {initial start finish step previous : ℝ} {bound count : Nat}

theorem positionsAhead_succ :
    positionsAhead initial finish step (bound + 1) count =
      if finish - tolerance ≤ initial + count * step then [finish]
      else (initial + count * step) :: positionsAhead initial finish step bound (count + 1) := rfl

theorem positionsBehind_succ :
    positionsBehind initial start step (bound + 1) count =
      if initial - count * step ≤ start + tolerance then [start]
      else (initial - count * step) :: positionsBehind initial start step bound (count + 1) := rfl

/-- Going backwards is going ahead on the line turned round. -/
theorem positionsBehind_eq_map (initial start step : ℝ) (bound count : Nat) :
    positionsBehind initial start step bound count =
      (positionsAhead (-initial) (-start) step bound count).map (- ·) := by
  induction bound generalizing count with
  | zero => simp [positionsBehind, positionsAhead]
  | succ bound ih =>
    rw [positionsBehind_succ, positionsAhead_succ, ih]
    have hguard : -start - tolerance ≤ -initial + count * step ↔
        initial - count * step ≤ start + tolerance := by
      constructor <;> intro hle <;> linarith
    by_cases hreached : initial - count * step ≤ start + tolerance
    · rw [if_pos hreached, if_pos (hguard.mpr hreached)]
      simp
    · rw [if_neg hreached, if_neg (mt hguard.mp hreached), List.map_cons]
      congr 1
      ring

/-- Each position is farther on than the one before it, by a step and the tolerance at most. -/
def Follows (gap low high : ℝ) : Prop := low < high ∧ high - low ≤ gap

theorem increasing_of_isChain {gap : ℝ} {positions : List ℝ}
    (hchain : positions.IsChain (Follows gap)) : positions.Pairwise (· < ·) :=
  List.isChain_iff_pairwise.mp (hchain.imp fun _ _ hfollows => hfollows.1)

theorem isChain_positionsAhead (hstep : 0 < step) (hprevious : previous < finish - tolerance)
    (hnext : initial + count * step = previous + step)
    (hbound : finish - tolerance ≤ initial + (count + bound) * step) :
    (previous :: positionsAhead initial finish step bound count).IsChain
      (Follows (step + tolerance)) := by
  have htolerance := tolerance_pos
  induction bound generalizing previous count with
  | zero =>
    rw [Nat.cast_zero, add_zero] at hbound
    refine List.isChain_pair.mpr ⟨?_, ?_⟩ <;> linarith
  | succ bound ih =>
    rw [positionsAhead_succ]
    split
    · rename_i hreached
      refine List.isChain_pair.mpr ⟨?_, ?_⟩ <;> linarith
    · rename_i hshort
      rw [not_le] at hshort
      refine List.isChain_cons_cons.mpr ⟨⟨?_, ?_⟩, ih hshort ?_ ?_⟩
      · linarith
      · linarith
      · push_cast
        ring
      · push_cast at hbound ⊢
        linarith

theorem finish_mem_positionsAhead : finish ∈ positionsAhead initial finish step bound count := by
  induction bound generalizing count with
  | zero => exact List.mem_singleton_self finish
  | succ bound ih =>
    rw [positionsAhead_succ]
    split
    · exact List.mem_singleton_self finish
    · exact List.mem_cons_of_mem _ ih

theorem le_of_mem_positionsAhead {position : ℝ}
    (hmem : position ∈ positionsAhead initial finish step bound count) : position ≤ finish := by
  induction bound generalizing count with
  | zero => exact (List.mem_singleton.mp hmem).le
  | succ bound ih =>
    rw [positionsAhead_succ] at hmem
    split at hmem
    · exact (List.mem_singleton.mp hmem).le
    · rename_i hshort
      obtain rfl | hrest := List.mem_cons.mp hmem
      · linarith [tolerance_pos]
      · exact ih hrest

theorem length_positionsAhead_le (hstep : 0 < step) (hprevious : previous < finish - tolerance)
    (hnext : initial + count * step = previous + step) :
    (positionsAhead initial finish step bound count).length ≤ ⌈(finish - previous) / step⌉₊ := by
  have htolerance := tolerance_pos
  have hone : ∀ {place : ℝ}, place < finish - tolerance → 1 ≤ ⌈(finish - place) / step⌉₊ :=
    fun hplace => Nat.one_le_ceil_iff.mpr (div_pos (by linarith) hstep)
  induction bound generalizing previous count with
  | zero => exact hone hprevious
  | succ bound ih =>
    rw [positionsAhead_succ]
    split
    · exact hone hprevious
    · rename_i hshort
      rw [not_le] at hshort
      have hrest : (positionsAhead initial finish step bound (count + 1)).length ≤
          ⌈(finish - (initial + count * step)) / step⌉₊ := ih hshort (by push_cast; ring)
      have hceil : ⌈(finish - (initial + count * step)) / step⌉₊ =
          ⌈(finish - previous) / step⌉₊ - 1 := by
        rw [hnext, ← Nat.ceil_sub_one, ← sub_sub, sub_div, div_self hstep.ne']
      rw [hceil] at hrest
      rw [List.length_cons]
      have := hone hprevious
      omega

end Front

/-! ### Both fronts -/

section Fronts

variable {initial start finish step : ℝ} {bound : Nat}

/-- The positions of a search ahead of the initial one. -/
noncomputable def frontAhead (initial finish step : ℝ) (bound : Nat) : List ℝ :=
  if initial < finish - tolerance then positionsAhead initial finish step bound 1 else []

/-- The positions of a search behind the initial one. -/
noncomputable def frontBehind (initial start step : ℝ) (bound : Nat) : List ℝ :=
  if start + tolerance < initial then positionsBehind initial start step bound 1 else []

/-- The number of rounds that a search is bounded by. -/
noncomputable def roundBound (start finish step : ℝ) : Nat := ⌊(finish - start) / step⌋₊ + 2

theorem searchPositions_eq (initial start finish step : ℝ) :
    searchPositions initial start finish step =
      initial :: alternate (frontAhead initial finish step (roundBound start finish step))
        (frontBehind initial start step (roundBound start finish step)) := rfl

theorem frontBehind_eq_map (initial start step : ℝ) (bound : Nat) :
    frontBehind initial start step bound =
      (frontAhead (-initial) (-start) step bound).map (- ·) := by
  have hguard : -initial < -start - tolerance ↔ start + tolerance < initial := by
    constructor <;> intro hlt <;> linarith
  rw [frontBehind, frontAhead, if_congr hguard rfl rfl, apply_ite (List.map _),
    positionsBehind_eq_map, List.map_nil]

/-- As many steps as the bound allows lead past the end of the range. -/
theorem range_le_roundBound_mul (start finish : ℝ) {step : ℝ} (hstep : 0 < step) :
    finish - start ≤ roundBound start finish step * step := by
  have hfloor : (finish - start) / step < ⌊(finish - start) / step⌋₊ + 1 :=
    Nat.lt_floor_add_one _
  rw [div_lt_iff₀ hstep] at hfloor
  rw [roundBound]
  push_cast
  linarith

theorem isChain_frontAhead (hstep : 0 < step)
    (hbound : finish - initial ≤ bound * step) :
    (initial :: frontAhead initial finish step bound).IsChain (Follows (step + tolerance)) := by
  rw [frontAhead]
  split
  · rename_i hopen
    refine isChain_positionsAhead hstep hopen (by push_cast; ring) ?_
    push_cast
    linarith [tolerance_pos]
  · exact List.isChain_singleton initial

theorem lt_of_mem_frontAhead (hstep : 0 < step) (hbound : finish - initial ≤ bound * step)
    {position : ℝ} (hmem : position ∈ frontAhead initial finish step bound) :
    initial < position ∧ position ≤ finish := by
  refine ⟨List.rel_of_pairwise_cons (increasing_of_isChain (isChain_frontAhead hstep hbound)) hmem,
    ?_⟩
  rw [frontAhead] at hmem
  split at hmem
  · exact le_of_mem_positionsAhead hmem
  · cases hmem

theorem mem_frontAhead (hopen : initial < finish - tolerance) :
    finish ∈ frontAhead initial finish step bound := by
  rw [frontAhead, if_pos hopen]
  exact finish_mem_positionsAhead

theorem length_frontAhead_le (initial finish : ℝ) (bound : Nat) {step : ℝ} (hstep : 0 < step) :
    (frontAhead initial finish step bound).length ≤ ⌈(finish - initial) / step⌉₊ := by
  rw [frontAhead]
  split
  · rename_i hopen
    exact length_positionsAhead_le hstep hopen (by push_cast; ring)
  · exact Nat.zero_le _

theorem isChain_frontBehind (hstep : 0 < step) (hbound : initial - start ≤ bound * step) :
    (initial :: frontBehind initial start step bound).IsChain
      fun high low => Follows (step + tolerance) low high := by
  have hchain : (-initial :: frontAhead (-initial) (-start) step bound).IsChain
      (Follows (step + tolerance)) := isChain_frontAhead hstep (by linarith)
  rw [frontBehind_eq_map, ← neg_neg initial, ← List.map_cons (f := (- · : ℝ → ℝ)), neg_neg]
  refine (List.isChain_map _).mpr (hchain.imp fun high low hfollows => ?_)
  exact ⟨neg_lt_neg hfollows.1, by linarith [hfollows.2]⟩

theorem lt_of_mem_frontBehind (hstep : 0 < step) (hbound : initial - start ≤ bound * step)
    {position : ℝ} (hmem : position ∈ frontBehind initial start step bound) :
    start ≤ position ∧ position < initial := by
  rw [frontBehind_eq_map] at hmem
  obtain ⟨mirrored, hmirrored, rfl⟩ := List.mem_map.mp hmem
  obtain ⟨hfar, hnear⟩ := lt_of_mem_frontAhead hstep
    (by linarith : -start - -initial ≤ bound * step) hmirrored
  exact ⟨by linarith, by linarith⟩

theorem mem_frontBehind (hopen : start + tolerance < initial) :
    start ∈ frontBehind initial start step bound := by
  rw [frontBehind_eq_map]
  exact List.mem_map.mpr ⟨-start, mem_frontAhead (by linarith), neg_neg start⟩

theorem length_frontBehind_le (initial start : ℝ) (bound : Nat) {step : ℝ} (hstep : 0 < step) :
    (frontBehind initial start step bound).length ≤ ⌈(initial - start) / step⌉₊ := by
  rw [frontBehind_eq_map, List.length_map, show initial - start = -start - -initial by ring]
  exact length_frontAhead_le _ _ bound hstep

end Fronts

/-! ### The search without a bound -/

/-- A search along a line between two rounds: what it has found, the number of its next steps, and
whether it goes on ahead and behind. -/
structure LineSearch where
  found : List ℝ
  count : Nat
  ahead : Bool
  behind : Bool

namespace LineSearch

variable {initial start finish step : ℝ} {search : LineSearch} {bound : Nat}

/-- The search before its first round. -/
noncomputable def begin (initial start finish : ℝ) : LineSearch :=
  { found := [initial]
    count := 1
    ahead := decide (initial < finish - tolerance)
    behind := decide (start + tolerance < initial) }

def isOpen (search : LineSearch) : Bool := search.ahead || search.behind

/-- The next position ahead, the last of which is the end of the range. -/
noncomputable def stepAhead (initial finish step : ℝ) (search : LineSearch) : LineSearch :=
  if search.ahead then
    if finish - tolerance ≤ initial + search.count * step then
      { search with found := search.found ++ [finish], ahead := false }
    else { search with found := search.found ++ [initial + search.count * step] }
  else search

/-- The next position behind, the last of which is the start of the range. -/
noncomputable def stepBehind (initial start step : ℝ) (search : LineSearch) : LineSearch :=
  if search.behind then
    if initial - search.count * step ≤ start + tolerance then
      { search with found := search.found ++ [start], behind := false }
    else { search with found := search.found ++ [initial - search.count * step] }
  else search

noncomputable def round (initial start finish step : ℝ) (search : LineSearch) : LineSearch :=
  let search := (search.stepAhead initial finish step).stepBehind initial start step
  { search with count := search.count + 1 }

/-- The positions that a number of rounds is still to find ahead. -/
noncomputable def restAhead (initial finish step : ℝ) (search : LineSearch) (bound : Nat) :
    List ℝ :=
  if search.ahead then positionsAhead initial finish step bound search.count else []

/-- The positions that a number of rounds is still to find behind. -/
noncomputable def restBehind (initial start step : ℝ) (search : LineSearch) (bound : Nat) :
    List ℝ :=
  if search.behind then positionsBehind initial start step bound search.count else []

/-- The fronts that are still open have a number of steps to their ends at most. -/
structure Reaches (initial start finish step : ℝ) (search : LineSearch) (bound : Nat) : Prop where
  ahead : search.ahead = true → finish - tolerance ≤ initial + (search.count + bound) * step
  behind : search.behind = true → initial - (search.count + bound) * step ≤ start + tolerance

@[simp]
theorem count_stepAhead (search : LineSearch) :
    (search.stepAhead initial finish step).count = search.count := by
  rw [stepAhead]
  split_ifs <;> rfl

@[simp]
theorem behind_stepAhead (search : LineSearch) :
    (search.stepAhead initial finish step).behind = search.behind := by
  rw [stepAhead]
  split_ifs <;> rfl

@[simp]
theorem count_stepBehind (search : LineSearch) :
    (search.stepBehind initial start step).count = search.count := by
  rw [stepBehind]
  split_ifs <;> rfl

@[simp]
theorem ahead_stepBehind (search : LineSearch) :
    (search.stepBehind initial start step).ahead = search.ahead := by
  rw [stepBehind]
  split_ifs <;> rfl

@[simp]
theorem count_round (search : LineSearch) :
    (search.round initial start finish step).count = search.count + 1 := by
  simp [round]

/-- A step ahead finds the next position of its front, and leaves the turn to the other one. -/
theorem found_stepAhead (search : LineSearch) (bound : Nat) (others : List ℝ) :
    search.found ++ alternate (search.restAhead initial finish step (bound + 1)) others =
      (search.stepAhead initial finish step).found ++
        alternate others (if (search.stepAhead initial finish step).ahead then
          positionsAhead initial finish step bound (search.count + 1) else []) := by
  rw [restAhead, stepAhead]
  by_cases hahead : search.ahead = true
  · rw [if_pos hahead, if_pos hahead, positionsAhead_succ]
    by_cases hreached : finish - tolerance ≤ initial + search.count * step
    · rw [if_pos hreached, if_pos hreached]
      simp [alternate, alternate_nil_right]
    · rw [if_neg hreached, if_neg hreached]
      simp [hahead, alternate]
  · simp [hahead, alternate, alternate_nil_right]

theorem found_stepBehind (search : LineSearch) (bound : Nat) (others : List ℝ) :
    search.found ++ alternate (search.restBehind initial start step (bound + 1)) others =
      (search.stepBehind initial start step).found ++
        alternate others (if (search.stepBehind initial start step).behind then
          positionsBehind initial start step bound (search.count + 1) else []) := by
  rw [restBehind, stepBehind]
  by_cases hbehind : search.behind = true
  · rw [if_pos hbehind, if_pos hbehind, positionsBehind_succ]
    by_cases hreached : initial - search.count * step ≤ start + tolerance
    · rw [if_pos hreached, if_pos hreached]
      simp [alternate, alternate_nil_right]
    · rw [if_neg hreached, if_neg hreached]
      simp [hbehind, alternate]
  · simp [hbehind, alternate, alternate_nil_right]

/-- A round finds the next position of either front. -/
theorem found_round (search : LineSearch) (bound : Nat) :
    (search.round initial start finish step).found ++
        alternate ((search.round initial start finish step).restAhead initial finish step bound)
          ((search.round initial start finish step).restBehind initial start step bound) =
      search.found ++ alternate (search.restAhead initial finish step (bound + 1))
        (search.restBehind initial start step (bound + 1)) := by
  have hbehind : search.restBehind initial start step (bound + 1) =
      (search.stepAhead initial finish step).restBehind initial start step (bound + 1) := by
    rw [restBehind, restBehind, behind_stepAhead, count_stepAhead]
  rw [found_stepAhead, hbehind, found_stepBehind, count_stepAhead, restAhead, restBehind,
    count_round]
  simp only [round, ahead_stepBehind]

/-- A front that a round leaves open was open before it and has not reached its end. -/
theorem ahead_of_round (hopen : (search.round initial start finish step).ahead = true) :
    search.ahead = true ∧ initial + search.count * step < finish - tolerance := by
  simp only [round, ahead_stepBehind, stepAhead] at hopen
  split_ifs at hopen with hahead hreached
  · exact ⟨hahead, not_le.mp hreached⟩
  · exact absurd hopen hahead

theorem behind_of_round (hopen : (search.round initial start finish step).behind = true) :
    search.behind = true ∧ start + tolerance < initial - search.count * step := by
  simp only [round, stepBehind, behind_stepAhead, count_stepAhead] at hopen
  split_ifs at hopen with hbehind hreached
  · exact ⟨hbehind, not_le.mp hreached⟩
  · rw [behind_stepAhead] at hopen
    exact absurd hopen hbehind

theorem Reaches.round (hreaches : search.Reaches initial start finish step (bound + 1)) :
    (search.round initial start finish step).Reaches initial start finish step bound := by
  constructor
  · intro hopen
    have hreach := hreaches.ahead (ahead_of_round hopen).1
    rw [count_round]
    push_cast at hreach ⊢
    linarith
  · intro hopen
    have hreach := hreaches.behind (behind_of_round hopen).1
    rw [count_round]
    push_cast at hreach ⊢
    linarith

/-- Fronts that reach their ends with the next step are closed by the round. -/
theorem Reaches.isOpen_round (hreaches : search.Reaches initial start finish step 0) :
    (search.round initial start finish step).isOpen = false := by
  rw [isOpen, Bool.or_eq_false_iff, Bool.eq_false_iff, Bool.eq_false_iff]
  refine ⟨fun hopen => ?_, fun hopen => ?_⟩
  · obtain ⟨hahead, hshort⟩ := ahead_of_round hopen
    have hreach := hreaches.ahead hahead
    rw [Nat.cast_zero, add_zero] at hreach
    exact absurd hshort (not_lt.mpr hreach)
  · obtain ⟨hbehind, hshort⟩ := behind_of_round hopen
    have hreach := hreaches.behind hbehind
    rw [Nat.cast_zero, add_zero] at hreach
    exact absurd hshort (not_lt.mpr hreach)

theorem alternate_rest_of_closed (hclosed : search.isOpen = false) :
    alternate (search.restAhead initial finish step bound)
      (search.restBehind initial start step bound) = [] := by
  rw [isOpen, Bool.or_eq_false_iff] at hclosed
  rw [restAhead, restBehind, hclosed.1, hclosed.2]
  exact alternate_nil_right []

/-- A number of rounds closes the search, which finds a list of positions until then. -/
structure FindsIn (initial start finish step : ℝ) (search : LineSearch) (rounds : Nat)
    (positions : List ℝ) : Prop where
  open_before : ∀ fewer < rounds,
    ((round initial start finish step)^[fewer] search).isOpen = true
  closed : ((round initial start finish step)^[rounds] search).isOpen = false
  found : ((round initial start finish step)^[rounds] search).found = positions

theorem FindsIn.of_closed (hclosed : search.isOpen = false) :
    search.FindsIn initial start finish step 0 search.found :=
  ⟨fun _ hfewer => absurd hfewer (Nat.not_lt_zero _), hclosed, rfl⟩

theorem FindsIn.succ {rounds : Nat} {positions : List ℝ} (hopen : search.isOpen = true)
    (hrest : (search.round initial start finish step).FindsIn initial start finish step rounds
      positions) :
    search.FindsIn initial start finish step (rounds + 1) positions := by
  refine ⟨fun fewer hfewer => ?_, hrest.closed, hrest.found⟩
  cases fewer with
  | zero => exact hopen
  | succ fewer => exact hrest.open_before fewer (Nat.lt_of_succ_lt_succ hfewer)

/-- A search whose fronts reach their ends within a number of steps stops, and finds the positions
of both fronts in turn. -/
theorem exists_rounds (hreaches : search.Reaches initial start finish step bound) :
    ∃ rounds, search.FindsIn initial start finish step rounds
      (search.found ++ alternate (search.restAhead initial finish step (bound + 1))
        (search.restBehind initial start step (bound + 1))) := by
  induction bound generalizing search with
  | zero =>
    cases hopen : search.isOpen with
    | false =>
      rw [alternate_rest_of_closed hopen, List.append_nil]
      exact ⟨0, .of_closed hopen⟩
    | true =>
      have hclosed := hreaches.isOpen_round
      rw [← found_round, alternate_rest_of_closed hclosed, List.append_nil]
      exact ⟨1, .succ hopen (.of_closed hclosed)⟩
  | succ bound ih =>
    cases hopen : search.isOpen with
    | false =>
      rw [alternate_rest_of_closed hopen, List.append_nil]
      exact ⟨0, .of_closed hopen⟩
    | true =>
      obtain ⟨rounds, hrounds⟩ := ih hreaches.round
      rw [found_round] at hrounds
      exact ⟨rounds + 1, hrounds.succ hopen⟩

end LineSearch

/-! ### What is searched -/

/-- Of neighbours that are close together one is in every wider stretch between two of them. -/
theorem exists_mem_between {gap low high near far : ℝ} {sorted : List ℝ}
    (hchain : sorted.IsChain (Follows gap)) (hnear : near ∈ sorted) (hfar : far ∈ sorted)
    (hhigh : near < high) (hlow : low < far) (hwide : gap < high - low) :
    ∃ position ∈ sorted, low < position ∧ position < high := by
  induction sorted generalizing near with
  | nil => cases hnear
  | cons first rest ih =>
    by_cases hinside : low < first
    · refine ⟨first, List.mem_cons_self, hinside, ?_⟩
      obtain rfl | hrest := List.mem_cons.mp hnear
      · exact hhigh
      · exact (List.rel_of_pairwise_cons (increasing_of_isChain hchain) hrest).trans hhigh
    · rw [not_lt] at hinside
      have hmem : far ∈ rest := by
        refine (List.mem_cons.mp hfar).resolve_left fun heq => ?_
        rw [heq] at hlow
        exact absurd hlow (not_lt.mpr hinside)
      cases rest with
      | nil => cases hmem
      | cons second rest =>
        obtain ⟨hfollows, hrest⟩ := List.isChain_cons_cons.mp hchain
        obtain ⟨position, hposition, hbetween⟩ :=
          ih hrest List.mem_cons_self hmem (by linarith [hfollows.2])
        exact ⟨position, List.mem_cons_of_mem _ hposition, hbetween⟩

/-- The positions of a search cover a range: none is missed by more than a step. -/
structure SearchesRange (initial start finish step : ℝ) (positions : List ℝ) : Prop where
  head : positions.head? = some initial
  nodup : positions.Nodup
  within : ∀ position ∈ positions, start ≤ position ∧ position ≤ finish
  finish_mem : initial < finish - 1e-9 → finish ∈ positions
  start_mem : start + 1e-9 < initial → start ∈ positions
  neighbours : ∃ sorted : List ℝ, sorted.Perm positions ∧
    sorted.IsChain fun low high => low < high ∧ high - low ≤ step + 1e-9
  no_gap : ∀ low high, start ≤ low → high ≤ finish → step + 1e-9 < high - low →
    ∃ position ∈ positions, low < position ∧ position < high
  ahead : (positions.filter fun position => decide (initial < position)).Pairwise (· < ·)
  behind : (positions.filter fun position => decide (position < initial)).Pairwise (· > ·)

section Range

variable {initial start finish step : ℝ}

/-- The positions of a search from the start of the range to its end. -/
noncomputable def sortedPositions (initial start finish step : ℝ) : List ℝ :=
  (frontBehind initial start step (roundBound start finish step)).reverse ++
    initial :: frontAhead initial finish step (roundBound start finish step)

theorem sortedPositions_perm (initial start finish step : ℝ) :
    (sortedPositions initial start finish step).Perm
      (searchPositions initial start finish step) := by
  rw [sortedPositions, searchPositions_eq]
  refine List.perm_middle.trans (List.Perm.cons initial ?_)
  exact (List.Perm.append_right _ (List.reverse_perm _)).trans
    (List.perm_append_comm.trans (alternate_perm _ _).symm)

theorem isChain_sortedPositions (hstart : start ≤ initial) (hfinish : initial ≤ finish)
    (hstep : 0 < step) :
    (sortedPositions initial start finish step).IsChain (Follows (step + tolerance)) := by
  have hbound := range_le_roundBound_mul start finish hstep
  refine List.isChain_split.mpr ⟨?_, isChain_frontAhead hstep (by linarith)⟩
  rw [← List.reverse_cons]
  exact List.isChain_reverse.mpr (isChain_frontBehind hstep (by linarith))

/-- The positions that differ from the initial one lie on one of the fronts. -/
theorem mem_searchPositions {position : ℝ} :
    position ∈ searchPositions initial start finish step ↔
      position = initial ∨
        position ∈ frontAhead initial finish step (roundBound start finish step) ∨
        position ∈ frontBehind initial start step (roundBound start finish step) := by
  rw [searchPositions_eq, List.mem_cons, (alternate_perm _ _).mem_iff, List.mem_append]

theorem finish_mem_searchPositions (hopen : initial < finish - tolerance) :
    finish ∈ searchPositions initial start finish step :=
  mem_searchPositions.mpr (.inr (.inl (mem_frontAhead hopen)))

theorem start_mem_searchPositions (hopen : start + tolerance < initial) :
    start ∈ searchPositions initial start finish step :=
  mem_searchPositions.mpr (.inr (.inr (mem_frontBehind hopen)))

/-- The positions ahead of the initial one and those behind it, in the order of the search. -/
theorem filter_searchPositions (hstart : start ≤ initial) (hfinish : initial ≤ finish)
    (hstep : 0 < step) :
    ((searchPositions initial start finish step).filter fun position =>
        decide (initial < position)) =
      frontAhead initial finish step (roundBound start finish step) ∧
    ((searchPositions initial start finish step).filter fun position =>
        decide (position < initial)) =
      frontBehind initial start step (roundBound start finish step) := by
  have hbound := range_le_roundBound_mul start finish hstep
  have hahead : ∀ position ∈ frontAhead initial finish step (roundBound start finish step),
      initial < position := fun _ hmem => (lt_of_mem_frontAhead hstep (by linarith) hmem).1
  have hbehind : ∀ position ∈ frontBehind initial start step (roundBound start finish step),
      position < initial := fun _ hmem => (lt_of_mem_frontBehind hstep (by linarith) hmem).2
  rw [searchPositions_eq, List.filter_cons_of_neg (by simp), List.filter_cons_of_neg (by simp)]
  constructor
  · exact (filter_alternate _ _ _).1 (fun position hmem => decide_eq_true (hahead position hmem))
      fun position hmem => decide_eq_false (hbehind position hmem).not_gt
  · exact (filter_alternate _ _ _).2
      (fun position hmem => decide_eq_false (hahead position hmem).not_gt)
      fun position hmem => decide_eq_true (hbehind position hmem)

theorem searchesRange_searchPositions (hstart : start ≤ initial) (hfinish : initial ≤ finish)
    (hstep : 0 < step) :
    SearchesRange initial start finish step (searchPositions initial start finish step) := by
  have hbound := range_le_roundBound_mul start finish hstep
  have hperm := sortedPositions_perm initial start finish step
  have hchain := isChain_sortedPositions hstart hfinish hstep
  obtain ⟨hfilterAhead, hfilterBehind⟩ := filter_searchPositions hstart hfinish hstep
  refine
    { head := rfl
      nodup := hperm.nodup_iff.mp ((increasing_of_isChain hchain).imp fun hlt => hlt.ne)
      within := fun position hmem => ?within
      finish_mem := finish_mem_searchPositions
      start_mem := start_mem_searchPositions
      neighbours := ⟨_, hperm, hchain⟩
      no_gap := fun low high hlow hhigh hwide => ?no_gap
      ahead := ?ahead
      behind := ?behind }
  case within =>
    obtain rfl | hahead | hbehind := mem_searchPositions.mp hmem
    · exact ⟨hstart, hfinish⟩
    · obtain ⟨hinitial, hposition⟩ := lt_of_mem_frontAhead hstep (by linarith) hahead
      exact ⟨hstart.trans hinitial.le, hposition⟩
    · obtain ⟨hposition, hinitial⟩ := lt_of_mem_frontBehind hstep (by linarith) hbehind
      exact ⟨hposition, hinitial.le.trans hfinish⟩
  case no_gap =>
    -- The range is searched up to the tolerance at both of its ends.
    have hnear : ∃ near ∈ searchPositions initial start finish step, near ≤ start + tolerance := by
      by_cases hopen : start + tolerance < initial
      · exact ⟨start, start_mem_searchPositions hopen, by linarith [tolerance_pos]⟩
      · exact ⟨initial, mem_searchPositions.mpr (.inl rfl), not_lt.mp hopen⟩
    have hfar : ∃ far ∈ searchPositions initial start finish step, finish - tolerance ≤ far := by
      by_cases hopen : initial < finish - tolerance
      · exact ⟨finish, finish_mem_searchPositions hopen, by linarith [tolerance_pos]⟩
      · exact ⟨initial, mem_searchPositions.mpr (.inl rfl), not_lt.mp hopen⟩
    obtain ⟨near, hnearMem, hnear⟩ := hnear
    obtain ⟨far, hfarMem, hfar⟩ := hfar
    change step + tolerance < high - low at hwide
    obtain ⟨position, hmem, hbetween⟩ := exists_mem_between hchain (hperm.mem_iff.mpr hnearMem)
      (hperm.mem_iff.mpr hfarMem) (by linarith : near < high) (by linarith : low < far) hwide
    exact ⟨position, hperm.mem_iff.mp hmem, hbetween⟩
  case ahead =>
    rw [hfilterAhead]
    exact (increasing_of_isChain (isChain_frontAhead hstep (by linarith))).of_cons
  case behind =>
    rw [hfilterBehind]
    have hbehind := isChain_frontBehind hstep
      (by linarith : initial - start ≤ roundBound start finish step * step)
    exact (List.isChain_iff_pairwise.mp (hbehind.imp fun _ _ hfollows => hfollows.1)).of_cons

/-- Two fronts that share a range of a hundred steps have at most a hundred and one positions. -/
theorem length_searchPositions_le (hstart : start ≤ initial) (hfinish : initial ≤ finish)
    (hstep : 0 < step) (hrange : finish - start ≤ 100 * step) :
    (searchPositions initial start finish step).length ≤ 102 := by
  have hahead := length_frontAhead_le initial finish (roundBound start finish step) hstep
  have hbehind := length_frontBehind_le initial start (roundBound start finish step) hstep
  have hceilAhead := Nat.ceil_lt_add_one (div_nonneg (sub_nonneg.mpr hfinish) hstep.le)
  have hceilBehind := Nat.ceil_lt_add_one (div_nonneg (sub_nonneg.mpr hstart) hstep.le)
  have hsteps : (finish - initial) / step + (initial - start) / step ≤ 100 := by
    rw [← add_div, div_le_iff₀ hstep]
    linarith
  have hceil : ⌈(finish - initial) / step⌉₊ + ⌈(initial - start) / step⌉₊ < 102 := by
    have hcast : (⌈(finish - initial) / step⌉₊ : ℝ) + ⌈(initial - start) / step⌉₊ < 102 := by
      linarith
    exact_mod_cast hcast
  rw [searchPositions_eq, List.length_cons, (alternate_perm _ _).length_eq, List.length_append]
  omega

end Range

/-! ### The range of a placement -/

theorem Scalar.clamp_mem (value : ℝ) {low high : ℝ} (hrange : low ≤ high) :
    low ≤ clamp value low high ∧ clamp value low high ≤ high := by
  change low ≤ (if high < (if value < low then low else value) then high
      else if value < low then low else value) ∧
    (if high < (if value < low then low else value) then high
      else if value < low then low else value) ≤ high
  split_ifs with hbelow habove habove
  · exact ⟨hrange, le_rfl⟩
  · exact ⟨le_rfl, hrange⟩
  · exact ⟨hrange, le_rfl⟩
  · exact ⟨not_lt.mp hbelow, not_lt.mp habove⟩

theorem LinePosition.resolve_mem (position : LinePosition ℝ) {length : ℝ} (hlength : 0 ≤ length) :
    0 ≤ position.resolve length ∧ position.resolve length ≤ length := by
  simp only [LinePosition.resolve, Scalar.larger_eq_max, Scalar.numeral_eq, Nat.cast_zero,
    max_eq_left hlength]
  exact Scalar.clamp_mem _ hlength

namespace LinePlacement

variable (placement : LinePlacement ℝ)

/-- The lower end of the range of a placement on a line of a given length. -/
noncomputable def rangeStart (length : ℝ) : ℝ :=
  min (placement.minimum.resolve length) (placement.maximum.resolve length)

/-- The upper end of the range of a placement on a line of a given length. -/
noncomputable def rangeFinish (length : ℝ) : ℝ :=
  max (placement.minimum.resolve length) (placement.maximum.resolve length)

/-- The position that the search for a label on a line of a given length starts from. -/
noncomputable def searchInitial (length : ℝ) : ℝ :=
  Scalar.clamp (placement.initial.resolve length) (placement.rangeStart length)
    (placement.rangeFinish length)

theorem positions_eq (searchStep length width : ℝ) :
    placement.positions searchStep length width =
      searchPositions (placement.searchInitial length) (placement.rangeStart length)
        (placement.rangeFinish length) (max (width * searchStep) (length / 100)) := by
  simp only [positions, searchRange, searchInitial, rangeStart, rangeFinish,
    Scalar.smaller_eq_min, Scalar.larger_eq_max, Scalar.numeral_eq]

end LinePlacement

/-- **The positions of a search cover its range.** However the initial position lies in the range,
the search stops, and what it has found is the list of positions: the initial one first, none twice
and none outside the range, the ends of the range among them unless the initial position is already
there, neighbours no more than a step apart, and the positions of either side going away from the
initial one. The range and the step of a placement on a line of some length are such a range and
step, and give a hundred and two positions at most. -/
theorem searchPositions_cover_range :
    (∀ initial start finish step : ℝ, start ≤ initial → initial ≤ finish → 0 < step →
      (∃ rounds, (LineSearch.begin initial start finish).FindsIn initial start finish step rounds
        (searchPositions initial start finish step)) ∧
      SearchesRange initial start finish step (searchPositions initial start finish step)) ∧
    ∀ (placement : LinePlacement ℝ) (searchStep length width : ℝ), 1e-9 < length →
      placement.rangeStart length ≤ placement.searchInitial length ∧
      placement.searchInitial length ≤ placement.rangeFinish length ∧
      0 < max (width * searchStep) (length / 100) ∧
      placement.positions searchStep length width =
        searchPositions (placement.searchInitial length) (placement.rangeStart length)
          (placement.rangeFinish length) (max (width * searchStep) (length / 100)) ∧
      (placement.positions searchStep length width).length ≤ 102 := by
  refine ⟨fun initial start finish step hstart hfinish hstep => ⟨?_, ?_⟩,
    fun placement searchStep length width hlength => ?_⟩
  · have hrange := range_le_roundBound_mul start finish hstep
    have hreaches : (LineSearch.begin initial start finish).Reaches initial start finish step
        (⌊(finish - start) / step⌋₊ + 1) := by
      rw [roundBound] at hrange
      push_cast at hrange
      constructor <;> intro _ <;> simp only [LineSearch.begin] <;> push_cast <;>
        linarith [tolerance_pos]
    obtain ⟨rounds, hrounds⟩ := LineSearch.exists_rounds hreaches
    refine ⟨rounds, ?_⟩
    convert hrounds using 1
    simp [searchPositions_eq, LineSearch.begin, LineSearch.restAhead, LineSearch.restBehind,
      frontAhead, frontBehind, roundBound]
  · exact searchesRange_searchPositions hstart hfinish hstep
  · have hpositive : 0 < length := lt_trans (by norm_num) hlength
    have hminimum := placement.minimum.resolve_mem hpositive.le
    have hmaximum := placement.maximum.resolve_mem hpositive.le
    have hshare : 0 < length / 100 := by positivity
    have hstep : 0 < max (width * searchStep) (length / 100) := lt_max_of_lt_right hshare
    obtain ⟨hstart, hfinish⟩ := Scalar.clamp_mem (placement.initial.resolve length)
      (min_le_max : placement.rangeStart length ≤ placement.rangeFinish length)
    refine ⟨hstart, hfinish, hstep, placement.positions_eq searchStep length width, ?_⟩
    rw [placement.positions_eq]
    refine length_searchPositions_le hstart hfinish hstep ?_
    have hlow : 0 ≤ placement.rangeStart length := le_min hminimum.1 hmaximum.1
    have hhigh : placement.rangeFinish length ≤ length := max_le hminimum.2 hmaximum.2
    linarith [le_max_right (width * searchStep) (length / 100)]

/-- From the place five eighths along a range the search ends at both of its ends. -/
theorem range_of_eight_is_searched :
    (0 : ℝ) ≤ 5 ∧ (5 : ℝ) ≤ 8 ∧ (0 : ℝ) < 2 ∧
      (∃ rounds, (LineSearch.begin 5 0 8).FindsIn 5 0 8 2 rounds (searchPositions 5 0 8 2)) ∧
      SearchesRange 5 0 8 2 (searchPositions 5 0 8 2) ∧
      searchPositions (5 : ℝ) 0 8 2 = [5, 7, 3, 8, 1, 0] ∧
      (1e-9 : ℝ) < 10 ∧
      ((LinePlacement.onSide (α := ℝ) .above).positions 0.5 10 3).length ≤ 102 := by
  have hpositions := searchPositions_cover_range.1 5 0 8 2 (by norm_num) (by norm_num) (by norm_num)
  refine ⟨by norm_num, by norm_num, by norm_num, hpositions.1, hpositions.2, ?_, by norm_num,
    (searchPositions_cover_range.2 (.onSide .above) 0.5 10 3 (by norm_num)).2.2.2.2⟩
  have hfloor : ⌊((8 : ℝ) - 0) / 2⌋₊ = 4 := by norm_num
  have htolerance : (tolerance : ℝ) = 1e-9 := rfl
  rw [searchPositions_eq, frontAhead, frontBehind, roundBound, hfloor, htolerance]
  norm_num [positionsAhead_succ, positionsBehind_succ, htolerance, alternate]

end LabelPlacement
