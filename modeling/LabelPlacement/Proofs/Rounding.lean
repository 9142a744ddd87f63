import Mathlib

/-!
# Rounding to 53 bits

A magnitude with more than 53 bits is rounded to the nearest one that has its lower bits zero, and
in a tie to the one with an even number of units above them (`rounded`). Rounding keeps the order of
magnitudes and leaves those alone that fit. The numbers of the machine are rounded in this way when
they are brought to their exponent (`exists_round_eq`).
-/

namespace LabelPlacement.Binary64

/-! ### The nearest number of units -/

/-- The number of units of `2 ^ bits` that is nearest to a magnitude, an even one in a tie. -/
def nearest (bits value : Nat) : Nat :=
  if 2 * (value % 2 ^ bits) < 2 ^ bits then value / 2 ^ bits
  else if 2 * (value % 2 ^ bits) = 2 ^ bits then value / 2 ^ bits + value / 2 ^ bits % 2
  else value / 2 ^ bits + 1

theorem nearest_mul_pow (bits units : Nat) : nearest bits (units * 2 ^ bits) = units := by
  have hpos : 0 < 2 ^ bits := Nat.two_pow_pos bits
  rw [nearest, Nat.mul_mod_left, if_pos (by omega), Nat.mul_div_cancel _ hpos]

theorem nearest_zero (value : Nat) : nearest 0 value = value := by
  simpa using nearest_mul_pow 0 value

theorem nearest_mono (bits : Nat) {small large : Nat} (hle : small ≤ large) :
    nearest bits small ≤ nearest bits large := by
  have hsmall := Nat.div_add_mod small (2 ^ bits)
  have hlarge := Nat.div_add_mod large (2 ^ bits)
  rcases (Nat.div_le_div_right hle : small / 2 ^ bits ≤ large / 2 ^ bits).eq_or_lt with heq | hlt
  · rw [← heq] at hlarge
    unfold nearest
    rw [← heq]
    split_ifs <;> omega
  · unfold nearest
    split_ifs <;> omega

theorem nearest_scaled (bits shift value : Nat) :
    nearest (bits + shift) (value * 2 ^ shift) = nearest bits value := by
  have hpos : 0 < 2 ^ shift := Nat.two_pow_pos shift
  simp only [nearest, Nat.pow_add, Nat.mul_div_mul_right _ _ hpos, Nat.mul_mod_mul_right,
    ← Nat.mul_assoc, Nat.mul_lt_mul_right hpos, Nat.mul_left_inj hpos.ne']

/-! ### Rounded magnitudes -/

/-- The number of bits of a magnitude that do not fit. -/
def surplus (value : Nat) : Nat := value.log2 - 52

/-- A magnitude rounded to 53 bits. -/
def rounded (value : Nat) : Nat := nearest (surplus value) value * 2 ^ surplus value

theorem lt_pow_surplus (value : Nat) : value < 2 ^ 53 * 2 ^ surplus value := by
  have hlog : value < 2 ^ (value.log2 + 1) := Nat.lt_log2_self
  refine hlog.trans_le ?_
  rw [← Nat.pow_add]
  exact Nat.pow_le_pow_right (by decide) (by unfold surplus; omega)

theorem pow_surplus_le {value : Nat} (hfull : 2 ^ 52 ≤ value) :
    2 ^ 52 * 2 ^ surplus value ≤ value := by
  have hne : value ≠ 0 := by omega
  have hlog : 52 ≤ value.log2 := (Nat.le_log2 hne).mpr hfull
  calc 2 ^ 52 * 2 ^ surplus value = 2 ^ value.log2 := by
        rw [← Nat.pow_add]
        congr 1
        unfold surplus
        omega
    _ ≤ value := Nat.log2_self_le hne

theorem surplus_eq_zero {value : Nat} (hfits : value < 2 ^ 53) : surplus value = 0 := by
  rcases Nat.eq_zero_or_pos value with rfl | hpos
  · rfl
  · have hlog : value.log2 < 53 := (Nat.log2_lt hpos.ne').mpr hfits
    unfold surplus
    omega

theorem surplus_mono {small large : Nat} (hle : small ≤ large) : surplus small ≤ surplus large := by
  rcases Nat.eq_zero_or_pos small with rfl | hpos
  · exact Nat.zero_le _
  · have hlog : small.log2 ≤ large.log2 :=
      (Nat.le_log2 (by omega)).mpr ((Nat.log2_self_le hpos.ne').trans hle)
    unfold surplus
    omega

theorem nearest_surplus_le (value : Nat) : nearest (surplus value) value ≤ 2 ^ 53 := by
  have hle := nearest_mono (surplus value) (lt_pow_surplus value).le
  rwa [nearest_mul_pow] at hle

theorem le_nearest_surplus {value : Nat} (hfull : 2 ^ 52 ≤ value) :
    2 ^ 52 ≤ nearest (surplus value) value := by
  have hle := nearest_mono (surplus value) (pow_surplus_le hfull)
  rwa [nearest_mul_pow] at hle

/-- Rounding keeps the order: between two magnitudes with different numbers of bits lies a power of
two, which is on no wrong side of either of them once they are rounded. -/
theorem rounded_mono {small large : Nat} (hle : small ≤ large) : rounded small ≤ rounded large := by
  rcases (surplus_mono hle).eq_or_lt with heq | hlt
  · rw [rounded, rounded, heq]
    exact Nat.mul_le_mul_right _ (nearest_mono _ hle)
  · have hfull : 2 ^ 52 ≤ large := by
      by_contra hsmall
      rw [surplus_eq_zero (by omega : large < 2 ^ 53)] at hlt
      omega
    calc rounded small ≤ 2 ^ 53 * 2 ^ surplus small :=
          Nat.mul_le_mul_right _ (nearest_surplus_le small)
      _ = 2 ^ 52 * 2 ^ (surplus small + 1) := by ring
      _ ≤ 2 ^ 52 * 2 ^ surplus large :=
          Nat.mul_le_mul_left _ (Nat.pow_le_pow_right (by decide) hlt)
      _ ≤ rounded large := Nat.mul_le_mul_right _ (le_nearest_surplus hfull)

theorem log2_mul_pow {value : Nat} (hpos : 0 < value) (shift : Nat) :
    (value * 2 ^ shift).log2 = value.log2 + shift := by
  have hlow : 2 ^ value.log2 ≤ value := Nat.log2_self_le hpos.ne'
  have hhigh : value < 2 ^ (value.log2 + 1) := Nat.lt_log2_self
  have hne : value * 2 ^ shift ≠ 0 := (Nat.mul_pos hpos (Nat.two_pow_pos shift)).ne'
  refine (Nat.log2_eq_iff hne).mpr ⟨?_, ?_⟩
  · rw [Nat.pow_add]
    exact Nat.mul_le_mul_right _ hlow
  · rw [show value.log2 + shift + 1 = value.log2 + 1 + shift by omega, Nat.pow_add]
    exact Nat.mul_lt_mul_of_pos_right hhigh (Nat.two_pow_pos shift)

/-- What has at most 53 bits above its lowest ones is not changed. -/
theorem rounded_mul_pow {units : Nat} (hfits : units < 2 ^ 53) (shift : Nat) :
    rounded (units * 2 ^ shift) = units * 2 ^ shift := by
  rcases Nat.eq_zero_or_pos units with rfl | hpos
  · simp [rounded, nearest]
  · have hlog : units.log2 < 53 := (Nat.log2_lt hpos.ne').mpr hfits
    have hsurplus : surplus (units * 2 ^ shift) ≤ shift := by
      rw [surplus, log2_mul_pow hpos]
      omega
    have hsplit : units * 2 ^ shift =
        units * 2 ^ (shift - surplus (units * 2 ^ shift)) * 2 ^ surplus (units * 2 ^ shift) := by
      rw [Nat.mul_assoc, ← Nat.pow_add, Nat.sub_add_cancel hsurplus]
    rw [rounded]
    generalize surplus (units * 2 ^ shift) = bits at hsplit ⊢
    rw [hsplit, nearest_mul_pow]

theorem rounded_scaled {value shift : Nat} (hpos : 0 < value)
    (hfull : 2 ^ 52 ≤ value ∨ shift = 0) :
    rounded (value * 2 ^ shift) = rounded value * 2 ^ shift := by
  rcases hfull with hfull | rfl
  · have hlog : 52 ≤ value.log2 := (Nat.le_log2 hpos.ne').mpr hfull
    have hsurplus : surplus (value * 2 ^ shift) = surplus value + shift := by
      rw [surplus, log2_mul_pow hpos, surplus]
      omega
    rw [rounded, hsurplus, nearest_scaled, rounded, Nat.pow_add, Nat.mul_assoc]
  · simp

/-! ### Rounding by the machine -/

open Float.Model Float.Model.UnpackedFloat

/-- The exponent that is so far above the least one. -/
def exponentAt (shift : Nat) : Int := (shift : Int) - 1074

/-- A mantissa and its exponent as rounding leaves them: the mantissa fits, and it fills its bits
unless the exponent is the least one. -/
structure Canonical (mantissa shift : Nat) : Prop where
  fits : mantissa < 2 ^ 53
  full : 2 ^ 52 ≤ mantissa ∨ shift = 0

/-- What has been shifted out is told by two bits. -/
theorem shiftRight_exact (mantissa bits : Nat) :
    ExtendedMantissa.ofMantissaAndAccuracy mantissa .exact >>> bits =
      ⟨mantissa / 2 ^ bits, 2 * mantissa / 2 ^ bits % 2 != 0, 2 * mantissa % 2 ^ bits != 0⟩ := by
  induction bits with
  | zero =>
    change ExtendedMantissa.ofMantissaAndAccuracy mantissa .exact = _
    simp [ExtendedMantissa.ofMantissaAndAccuracy, Nat.mod_one]
  | succ bits ih =>
    change (ExtendedMantissa.ofMantissaAndAccuracy mantissa .exact >>> bits).shiftRightOne = _
    have hunits : mantissa / 2 ^ bits / 2 = mantissa / 2 ^ (bits + 1) := by
      rw [Nat.div_div_eq_div_mul, Nat.pow_succ]
    have hround : 2 * mantissa / 2 ^ (bits + 1) = mantissa / 2 ^ bits := by
      rw [Nat.pow_succ', Nat.mul_div_mul_left _ _ (by decide)]
    have hsticky : 2 * mantissa % 2 ^ (bits + 1) =
        2 * mantissa % 2 ^ bits + 2 ^ bits * (2 * mantissa / 2 ^ bits % 2) := Nat.mod_pow_succ
    rw [ih, ExtendedMantissa.shiftRightOne, hunits, hround, hsticky]
    congr 1
    rw [Bool.eq_iff_iff]
    simp
    omega

theorem roundedMantissa_shiftRight (mantissa bits : Nat) :
    (ExtendedMantissa.ofMantissaAndAccuracy mantissa .exact >>> bits).roundedMantissa =
      nearest bits mantissa := by
  have hrest : mantissa % 2 ^ bits < 2 ^ bits := Nat.mod_lt _ (Nat.two_pow_pos bits)
  have hdouble : 2 * mantissa =
      2 ^ bits * (2 * (mantissa / 2 ^ bits)) + 2 * (mantissa % 2 ^ bits) := by
    conv_lhs => rw [← Nat.div_add_mod mantissa (2 ^ bits)]
    ring
  rw [shiftRight_exact, hdouble, Nat.mul_add_div (Nat.two_pow_pos bits), Nat.mul_add_mod,
    Nat.mul_add_mod, nearest]
  generalize 2 ^ bits = unit at hrest ⊢
  generalize mantissa / unit = units
  generalize mantissa % unit = rest at hrest ⊢
  by_cases hbelow : 2 * rest < unit
  · rw [Nat.div_eq_of_lt hbelow, Nat.mod_eq_of_lt hbelow, if_pos hbelow]
    cases hsticky : 2 * rest != 0 <;> rfl
  · have hover : 2 * rest / unit = 1 := Nat.div_eq_of_lt_le (by omega) (by omega)
    have hleft : 2 * rest % unit = 2 * rest - unit := by
      rw [Nat.mod_eq_sub_mod (by omega), Nat.mod_eq_of_lt (by omega)]
    rw [hover, hleft, if_neg hbelow]
    by_cases htie : 2 * rest = unit
    · rw [if_pos htie, htie, Nat.sub_self]
      rfl
    · have hsticky : (2 * rest - unit != 0) = true := by
        rw [bne_iff_ne]
        omega
      rw [if_neg htie, hsticky]
      rfl

theorem targetExponent_eq (mantissa shift : Nat) :
    Format.binary64.targetExponent (totalExponent mantissa (exponentAt shift)) =
      exponentAt (mantissa.log2 + shift - 52) := by
  change max ((mantissa.log2 : Int) + 1 + ((shift : Int) - 1074) - 53) (3 - 1024 - 53) = _
  unfold exponentAt
  omega

theorem shiftToTargetExponent_eq (mantissa shift : Nat) :
    shiftToTargetExponent Format.binary64 mantissa (exponentAt shift) .exact =
      (ExtendedMantissa.ofMantissaAndAccuracy mantissa .exact >>> surplus mantissa,
        exponentAt (shift + surplus mantissa)) := by
  have hamount : (exponentAt (mantissa.log2 + shift - 52) - exponentAt shift).toNat =
      surplus mantissa := by
    unfold exponentAt surplus
    omega
  have hexponent : exponentAt shift + surplus mantissa = exponentAt (shift + surplus mantissa) := by
    unfold exponentAt
    omega
  simp only [shiftToTargetExponent, targetExponent_eq, shiftToExponent, hamount, hexponent]

theorem nearest_surplus_full {mantissa shift : Nat} (hfull : 2 ^ 52 ≤ mantissa ∨ shift = 0) :
    2 ^ 52 ≤ nearest (surplus mantissa) mantissa ∨ shift + surplus mantissa = 0 := by
  by_cases hlarge : 2 ^ 52 ≤ mantissa
  · exact .inl (le_nearest_surplus hlarge)
  · have hsurplus : surplus mantissa = 0 := surplus_eq_zero (by omega)
    have hshift : shift = 0 := hfull.resolve_left hlarge
    omega

theorem nearest_surplus_pos {mantissa : Nat} (hpos : 0 < mantissa) :
    0 < nearest (surplus mantissa) mantissa := by
  by_cases hlarge : 2 ^ 52 ≤ mantissa
  · have hle := le_nearest_surplus hlarge
    omega
  · rwa [surplus_eq_zero (by omega), nearest_zero]

/-- Rounding up to the next power of two takes one more shift, which drops a zero. -/
theorem exists_roundWithAccuracy_eq (sign : Sign) {mantissa shift : Nat} (hpos : 0 < mantissa)
    (hfull : 2 ^ 52 ≤ mantissa ∨ shift = 0) :
    ∃ units bits, ∃ hunits : 0 < units, Canonical units bits ∧
      units * 2 ^ bits = rounded (mantissa * 2 ^ shift) ∧
      roundWithAccuracy Format.binary64 sign mantissa (exponentAt shift) .exact =
        .finite sign units (exponentAt bits) hunits := by
  have hvalue : rounded (mantissa * 2 ^ shift) =
      nearest (surplus mantissa) mantissa * 2 ^ (shift + surplus mantissa) := by
    rw [rounded_scaled hpos hfull, rounded, Nat.pow_add]
    ring
  have hle := nearest_surplus_le mantissa
  have hcanonical := nearest_surplus_full hfull
  have hunits := nearest_surplus_pos hpos
  rw [roundWithAccuracy, shiftToTargetExponent_eq, hvalue]
  dsimp only
  rw [roundedMantissa_shiftRight]
  generalize nearest (surplus mantissa) mantissa = units at *
  generalize shift + surplus mantissa = bits at *
  rw [shiftToTargetExponent_eq, shiftRight_exact]
  rcases hle.lt_or_eq with hlt | rfl
  · refine ⟨units, bits, hunits, ⟨hlt, hcanonical⟩, rfl, ?_⟩
    simp [surplus_eq_zero hlt, hunits.ne']
  · have hone : surplus (2 ^ 53) = 1 := by
      rw [surplus, Nat.log2_two_pow]
    refine ⟨2 ^ 52, bits + 1, by decide, ⟨by decide, .inl le_rfl⟩, by ring, ?_⟩
    simp only [hone]
    rfl

/-- **Rounding by the machine.** What is not zero is brought to its exponent and rounded. -/
theorem exists_round_eq (sign : Sign) {mantissa : Nat} (hpos : 0 < mantissa) (shift : Nat) :
    ∃ units bits, ∃ hunits : 0 < units, Canonical units bits ∧
      units * 2 ^ bits = rounded (mantissa * 2 ^ shift) ∧
      UnpackedFloat.round Format.binary64 sign mantissa (exponentAt shift) =
        .finite sign units (exponentAt bits) hunits := by
  have hamount : (exponentAt shift - exponentAt (mantissa.log2 + shift - 52)).toNat =
      shift - (mantissa.log2 + shift - 52) := by
    unfold exponentAt
    omega
  simp only [UnpackedFloat.round, targetExponent_eq, decreaseExponent, hamount, Nat.shiftLeft_eq]
  generalize hlower : shift - (mantissa.log2 + shift - 52) = lower
  have hshift : lower ≤ shift := by omega
  have hexponent : exponentAt shift - lower = exponentAt (shift - lower) := by
    unfold exponentAt
    omega
  have hscaled : mantissa * 2 ^ shift = mantissa * 2 ^ lower * 2 ^ (shift - lower) := by
    rw [Nat.mul_assoc, ← Nat.pow_add, Nat.add_sub_cancel' hshift]
  have hlowered : 0 < mantissa * 2 ^ lower := Nat.mul_pos hpos (Nat.two_pow_pos lower)
  have hfull : 2 ^ 52 ≤ mantissa * 2 ^ lower ∨ shift - lower = 0 := by
    by_cases hzero : shift - lower = 0
    · exact .inr hzero
    · refine .inl ((Nat.le_log2 hlowered.ne').mp ?_)
      rw [log2_mul_pow hpos]
      omega
  rw [hexponent, hscaled]
  exact exists_roundWithAccuracy_eq sign hlowered hfull

end LabelPlacement.Binary64
