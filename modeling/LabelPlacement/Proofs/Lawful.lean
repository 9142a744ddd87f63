import LabelPlacement.Geometry.Box

/-!
# What comparing and adding numbers has to satisfy

Numbers need not be exact, and they need not all be defined: an undefined number is below or equal
to nothing, itself included. `LawfulScalar` asks that comparison orders the defined numbers, and
that moving by a larger distance leads at least as far if it leads anywhere. Binary floating point
satisfies it with its roundings, and so does exact arithmetic.

With it, a box grows when it is expanded by a larger margin: what the smaller one overlaps, the
larger one overlaps as well.
-/

namespace LabelPlacement

/-- Comparison orders the defined numbers, and sums and differences follow it. -/
class LawfulScalar (α : Type) [Scalar α] : Prop where
  le_trans : ∀ {first second third : α}, first ≤ second → second ≤ third → first ≤ third
  lt_iff : ∀ {left right : α}, left < right ↔ left ≤ right ∧ ¬right ≤ left
  beq_self : ∀ {value : α}, (value == value) = true ↔ value ≤ value
  le_total : ∀ {left right : α}, left ≤ left → right ≤ right → left ≤ right ∨ right ≤ left
  left_of_le : ∀ {left right : α}, left ≤ right → left ≤ left
  right_of_le : ∀ {left right : α}, left ≤ right → right ≤ right
  zero_le_zero : (0 : α) ≤ 0
  add_le_add : ∀ {base small large : α}, 0 ≤ small → small ≤ large →
    base + large ≤ base + large → base + small ≤ base + large
  le_add : ∀ {base margin : α}, 0 ≤ margin → base + margin ≤ base + margin → base ≤ base + margin
  sub_le_sub : ∀ {base small large : α}, 0 ≤ small → small ≤ large →
    base - large ≤ base - large → base - large ≤ base - small
  sub_le : ∀ {base margin : α}, 0 ≤ margin → base - margin ≤ base - margin → base - margin ≤ base

namespace Scalar

variable {α : Type} [Scalar α] [LawfulScalar α] {left right : α}

open LawfulScalar

theorem le_of_not_lt (hleft : left ≤ left) (hright : right ≤ right) (hlt : ¬left < right) :
    right ≤ left := by
  rw [lt_iff, not_and, Classical.not_not] at hlt
  rcases le_total hleft hright with hle | hle
  · exact hlt hle
  · exact hle

theorem right_le_larger (hright : right ≤ right) : right ≤ larger left right := by
  rw [larger]
  split
  · exact hright
  · rename_i hlt
    split
    · rename_i hself
      exact le_of_not_lt (beq_self.mp hself) hright hlt
    · exact hright

theorem left_le_larger (hleft : left ≤ left) : left ≤ larger left right := by
  rw [larger]
  split
  · rename_i hlt
    exact (lt_iff.mp hlt).1
  · rw [if_pos (beq_self.mpr hleft)]
    exact hleft

end Scalar

namespace Box

variable {α : Type} [Scalar α]

/-- The box with its sides moved outwards. -/
def grown (box : Box α) (margin : α) : Box α :=
  ⟨⟨box.lower.x - margin, box.lower.y - margin⟩, ⟨box.upper.x + margin, box.upper.y + margin⟩⟩

/-- No side of a box lies beyond the opposite side of another one. -/
structure Meets (box other : Box α) : Prop where
  right : ¬box.upper.x ≤ other.lower.x
  left : ¬other.upper.x ≤ box.lower.x
  above : ¬box.upper.y ≤ other.lower.y
  below : ¬other.upper.y ≤ box.lower.y

theorem intersects_iff {box other : Box α} :
    box.intersects other = true ↔
      box.isEmpty = false ∧ other.isEmpty = false ∧ box.Meets other := by
  simp only [intersects, Bool.and_eq_true, Bool.not_eq_true', Bool.or_eq_false_iff,
    decide_eq_false_iff_not, and_assoc]
  exact ⟨fun ⟨hbox, hother, hright, hleft, habove, hbelow⟩ =>
      ⟨hbox, hother, hright, hleft, habove, hbelow⟩,
    fun ⟨hbox, hother, hmeets⟩ =>
      ⟨hbox, hother, hmeets.right, hmeets.left, hmeets.above, hmeets.below⟩⟩

theorem intersects_comm (box other : Box α) : box.intersects other = other.intersects box := by
  have hswap : ∀ {first second : Box α}, first.intersects second = true →
      second.intersects first = true := by
    intro first second hintersects
    obtain ⟨hfirst, hsecond, hmeets⟩ := intersects_iff.mp hintersects
    exact intersects_iff.mpr
      ⟨hsecond, hfirst, hmeets.left, hmeets.right, hmeets.below, hmeets.above⟩
  exact Bool.eq_iff_iff.mpr ⟨hswap, hswap⟩

theorem expanded_of_isEmpty {box : Box α} (hempty : box.isEmpty = true) (margin : α) :
    box.expanded margin = box := by
  rw [expanded, if_pos hempty]

variable [LawfulScalar α]

open LawfulScalar

theorem isEmpty_grown {box : Box α} {margin : α} (hbox : box.isEmpty = false)
    (hmargin : 0 ≤ margin) : (box.grown margin).isEmpty = false := by
  have hside : ∀ {lower upper : α}, ¬upper < lower → ¬upper + margin < lower - margin := by
    intro lower upper hside hless
    obtain ⟨hle, hnot⟩ := lt_iff.mp hless
    have hupper := le_add hmargin (left_of_le hle)
    have hlower := sub_le hmargin (right_of_le hle)
    refine hside (lt_iff.mpr ⟨le_trans hupper (le_trans hle hlower), fun hback => hnot ?_⟩)
    exact le_trans hlower (le_trans hback hupper)
  simp only [isEmpty, Bool.or_eq_false_iff, decide_eq_false_iff_not] at hbox ⊢
  exact ⟨hside hbox.1, hside hbox.2⟩

theorem expanded_of_nonneg {box : Box α} {margin : α} (hbox : box.isEmpty = false)
    (hmargin : 0 ≤ margin) : box.expanded margin = box.grown margin := by
  have hgrown : (box.grown margin).isEmpty = false := isEmpty_grown hbox hmargin
  simp only [grown] at hgrown
  simp only [expanded, hbox, hgrown, grown]
  rfl

/-- What a box overlaps, it still overlaps once it has been grown. -/
theorem Meets.grown {box other : Box α} {margin : α} (hmeets : box.Meets other)
    (hmargin : 0 ≤ margin) : (box.grown margin).Meets other where
  right hle := hmeets.right (le_trans (le_add hmargin (left_of_le hle)) hle)
  left hle := hmeets.left (le_trans hle (sub_le hmargin (right_of_le hle)))
  above hle := hmeets.above (le_trans (le_add hmargin (left_of_le hle)) hle)
  below hle := hmeets.below (le_trans hle (sub_le hmargin (right_of_le hle)))

theorem Meets.grown_of_le {box other : Box α} {small large : α}
    (hmeets : (box.grown small).Meets other) (hsmall : 0 ≤ small) (hle : small ≤ large) :
    (box.grown large).Meets other where
  right hside :=
    hmeets.right (le_trans (add_le_add hsmall hle (left_of_le hside)) hside)
  left hside :=
    hmeets.left (le_trans hside (sub_le_sub hsmall hle (right_of_le hside)))
  above hside :=
    hmeets.above (le_trans (add_le_add hsmall hle (left_of_le hside)) hside)
  below hside :=
    hmeets.below (le_trans hside (sub_le_sub hsmall hle (right_of_le hside)))

theorem intersects_expanded {box other : Box α} {margin : α} (hmargin : 0 ≤ margin)
    (hintersects : box.intersects other = true) :
    (box.expanded margin).intersects other = true := by
  obtain ⟨hbox, hother, hmeets⟩ := intersects_iff.mp hintersects
  rw [expanded_of_nonneg hbox hmargin]
  exact intersects_iff.mpr ⟨isEmpty_grown hbox hmargin, hother, hmeets.grown hmargin⟩

theorem intersects_expanded_of_le {box other : Box α} {small large : α} (hsmall : 0 ≤ small)
    (hle : small ≤ large) (hintersects : (box.expanded small).intersects other = true) :
    (box.expanded large).intersects other = true := by
  cases hbox : box.isEmpty with
  | true =>
    rw [expanded_of_isEmpty hbox] at hintersects ⊢
    exact hintersects
  | false =>
    have hlarge : (0 : α) ≤ large := le_trans hsmall hle
    rw [expanded_of_nonneg hbox hsmall] at hintersects
    rw [expanded_of_nonneg hbox hlarge]
    obtain ⟨_, hother, hmeets⟩ := intersects_iff.mp hintersects
    exact intersects_iff.mpr ⟨isEmpty_grown hbox hlarge, hother, hmeets.grown_of_le hsmall hle⟩

end Box

/-! ### Equal numbers -/

/-- No comparison tells the two numbers apart. -/
def Scalar.Indistinct {α : Type} [Scalar α] (left right : α) : Prop :=
  ∀ other, (left ≤ other ↔ right ≤ other) ∧ (other ≤ left ↔ other ≤ right)

theorem Scalar.Indistinct.symm {α : Type} [Scalar α] {left right : α}
    (hsame : Scalar.Indistinct left right) : Scalar.Indistinct right left :=
  fun other => ⟨(hsame other).1.symm, (hsame other).2.symm⟩

/-- No comparison tells apart what is equal, nor what results from it. Equal numbers need not be the
same, as the two zeros of binary floating point are not. -/
class LawfulEquality (α : Type) [Scalar α] : Prop where
  indistinct_of_beq : ∀ {left right : α}, (left == right) = true → Scalar.Indistinct left right
  indistinct_add : ∀ {left right : α}, Scalar.Indistinct left right → ∀ other,
    Scalar.Indistinct (left + other) (right + other)
  indistinct_sub : ∀ {left right : α}, Scalar.Indistinct left right → ∀ other,
    Scalar.Indistinct (left - other) (right - other)

namespace Box

variable {α : Type} [Scalar α]

/-- No comparison tells the sides of the two boxes apart. -/
structure Indistinct (box other : Box α) : Prop where
  left : Scalar.Indistinct box.lower.x other.lower.x
  right : Scalar.Indistinct box.upper.x other.upper.x
  below : Scalar.Indistinct box.lower.y other.lower.y
  above : Scalar.Indistinct box.upper.y other.upper.y

theorem Indistinct.isEmpty_eq [LawfulScalar α] {box other : Box α}
    (hsame : box.Indistinct other) : box.isEmpty = other.isEmpty := by
  have hlt : ∀ {upper lower upper' lower' : α}, Scalar.Indistinct upper upper' →
      Scalar.Indistinct lower lower' → decide (upper < lower) = decide (upper' < lower') := by
    intro upper lower upper' lower' hupper hlower
    rw [decide_eq_decide, LawfulScalar.lt_iff, LawfulScalar.lt_iff, (hupper lower).1,
      (hlower upper').2, (hupper lower).2, (hlower upper').1]
  rw [isEmpty, isEmpty, hlt hsame.right hsame.left, hlt hsame.above hsame.below]

theorem Indistinct.intersects_eq [LawfulScalar α] {box other : Box α}
    (hsame : box.Indistinct other) (entry : Box α) :
    box.intersects entry = other.intersects entry := by
  simp only [intersects, hsame.isEmpty_eq, decide_eq_decide.mpr (hsame.right _).1,
    decide_eq_decide.mpr (hsame.left _).2, decide_eq_decide.mpr (hsame.above _).1,
    decide_eq_decide.mpr (hsame.below _).2]

variable [LawfulEquality α]

open LawfulEquality

theorem indistinct_of_beq {box other : Box α} (hequal : (box == other) = true) :
    box.Indistinct other := by
  obtain ⟨⟨left, below⟩, ⟨right, above⟩⟩ := box
  obtain ⟨⟨left', below'⟩, ⟨right', above'⟩⟩ := other
  change ((left == left' && below == below') && (right == right' && above == above')) = true
    at hequal
  simp only [Bool.and_eq_true] at hequal
  obtain ⟨⟨hleft, hbelow⟩, hright, habove⟩ := hequal
  exact ⟨LawfulEquality.indistinct_of_beq hleft, LawfulEquality.indistinct_of_beq hright,
    LawfulEquality.indistinct_of_beq hbelow, LawfulEquality.indistinct_of_beq habove⟩

/-- Equal boxes overlap the same boxes, also once they have been grown. -/
theorem Indistinct.intersects_expanded_eq [LawfulScalar α] {box other : Box α}
    (hsame : box.Indistinct other) {margin : α} (hmargin : 0 ≤ margin) (entry : Box α) :
    (box.expanded margin).intersects entry = (other.expanded margin).intersects entry := by
  cases hbox : box.isEmpty with
  | true =>
    have hother := hsame.isEmpty_eq.symm.trans hbox
    rw [expanded_of_isEmpty hbox, expanded_of_isEmpty hother, hsame.intersects_eq]
  | false =>
    have hother := hsame.isEmpty_eq.symm.trans hbox
    rw [expanded_of_nonneg hbox hmargin, expanded_of_nonneg hother hmargin]
    apply Indistinct.intersects_eq
    exact ⟨indistinct_sub hsame.left margin, indistinct_add hsame.right margin,
      indistinct_sub hsame.below margin, indistinct_add hsame.above margin⟩

end Box

end LabelPlacement
