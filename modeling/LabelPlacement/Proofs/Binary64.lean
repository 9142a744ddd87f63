import LabelPlacement.Proofs.Lawful
import LabelPlacement.Proofs.Rounding
import LabelPlacement.Scalar.Binary64

/-!
# Binary floating point

Every number of the machine that is defined stands for a whole number of units of the least positive
one (`Reads`); the infinite numbers stand for numbers beyond all finite ones. Comparison is that of
the numbers of units, and sums and differences are the exact ones, rounded. Since rounding keeps the
order, binary floating point satisfies the laws that placing labels relies on.
-/

namespace LabelPlacement.Binary64

open Float.Model Float.Model.UnpackedFloat

/-! ### Packed numbers -/

/-- What is read back of a number that has been packed. -/
def repack (number : UnpackedFloat) : UnpackedFloat :=
  UnpackedFloat.unpack Format.binary64 (UnpackedFloat.pack Format.binary64 number)

theorem repack_infinity (sign : Sign) : repack (.infinity sign) = .infinity sign := by
  cases sign <;> rfl

theorem repack_zero (sign : Sign) : repack (.zero sign) = .zero sign := unpack_packedZero

theorem toNat_append_one (mantissa : BitVec 52) :
    (1#1 ++ mantissa).toNat = 2 ^ 52 + mantissa.toNat := by
  rw [BitVec.toNat_append, ← Nat.shiftLeft_add_eq_or_of_lt mantissa.isLt]
  rfl

/-- How far the largest exponent is above the least one. -/
def largestShift : Nat := 2045

theorem repack_of_full (sign : Sign) {mantissa shift : Nat} (hpos : 0 < mantissa)
    (hfull : 2 ^ 52 ≤ mantissa) (hfits : mantissa < 2 ^ 53) :
    repack (.finite sign mantissa (exponentAt shift) hpos) =
      if shift ≤ largestShift then .finite sign mantissa (exponentAt shift) hpos
      else .infinity sign := by
  have hbiased : (exponentAt shift + Format.binary64.exponentBias +
      Format.binary64.mantissaBitsWithoutImplicit).toNat = shift + 1 := by
    change ((shift : Int) - 1074 + 1023 + 52).toNat = shift + 1
    omega
  have hlog : mantissa.log2 = 52 := (Nat.log2_eq_iff hpos.ne').mpr ⟨hfull, hfits⟩
  simp only [repack, UnpackedFloat.pack, hbiased, hlog]
  by_cases hbound : shift ≤ largestShift
  · have hsmall : shift ≤ 2045 := hbound
    rw [if_neg (by change ¬2048 ≤ shift + 1 + 1; omega),
      if_pos (show 52 + 1 = Format.binary64.mantissaBits from rfl), if_pos hbound]
    have hexponent : (BitVec.ofNat 11 (shift + 1)).toNat = shift + 1 := by
      rw [BitVec.toNat_ofNat, Nat.mod_eq_of_lt (by omega)]
    have hlargest : BitVec.ofNat 11 (shift + 1) ≠ -1#11 := by
      intro heq
      rw [heq] at hexponent
      change 2047 = shift + 1 at hexponent
      omega
    have hzero : BitVec.ofNat 11 (shift + 1) ≠ 0#11 := by
      intro heq
      rw [heq] at hexponent
      cases hexponent
    have hmantissa : (1#1 ++ BitVec.ofNat 52 mantissa).toNat = mantissa := by
      rw [toNat_append_one, BitVec.toNat_ofNat]
      omega
    simp only [UnpackedFloat.unpack, unpackMantissa_packComponents, unpackExponent_packComponents,
      unpackSign_packComponents, Sign.ofBitVec_toBitVec, if_neg hlargest, if_neg hzero, hexponent,
      finite.injEq]
    refine ⟨trivial, hmantissa, ?_⟩
    change ((shift + 1 : Nat) : Int) - (1023 + 52) = (shift : Int) - 1074
    omega
  · have hlarge : ¬shift ≤ 2045 := hbound
    rw [if_pos (by change 2048 ≤ shift + 1 + 1; omega), if_neg hbound]
    exact repack_infinity sign

theorem repack_of_small (sign : Sign) {mantissa : Nat} (hpos : 0 < mantissa)
    (hsmall : mantissa < 2 ^ 52) :
    repack (.finite sign mantissa (exponentAt 0) hpos) =
      .finite sign mantissa (exponentAt 0) hpos := by
  have hlog : mantissa.log2 < 52 := (Nat.log2_lt hpos.ne').mpr hsmall
  have hmantissa : (BitVec.ofNat 52 mantissa).toNat = mantissa := by
    rw [BitVec.toNat_ofNat, Nat.mod_eq_of_lt hsmall]
  have hnonzero : BitVec.ofNat 52 mantissa ≠ 0#52 := by
    intro heq
    rw [heq] at hmantissa
    exact hpos.ne hmantissa
  simp only [repack, UnpackedFloat.pack]
  rw [if_neg (by decide), if_neg (by change ¬mantissa.log2 + 1 = 53; omega)]
  simp only [UnpackedFloat.unpack, unpackMantissa_packComponents, unpackExponent_packComponents,
    unpackSign_packComponents, Sign.ofBitVec_toBitVec, dif_neg hnonzero, hmantissa]
  rfl

theorem repack_finite (sign : Sign) {mantissa shift : Nat} (hpos : 0 < mantissa)
    (hcanonical : Canonical mantissa shift) :
    repack (.finite sign mantissa (exponentAt shift) hpos) =
      if shift ≤ largestShift then .finite sign mantissa (exponentAt shift) hpos
      else .infinity sign := by
  by_cases hsmall : mantissa < 2 ^ 52
  · obtain rfl : shift = 0 := hcanonical.full.resolve_left (by omega)
    rw [repack_of_small sign hpos hsmall, if_pos (Nat.zero_le _)]
  · exact repack_of_full sign hpos (by omega) hcanonical.fits

/-- The numbers that can be packed are canonical. -/
theorem exists_of_unpack_eq_finite {bits : BitVec Format.binary64.numBits} {sign : Sign}
    {mantissa : Nat} {exponent : Int} {hpos : 0 < mantissa}
    (hbits : UnpackedFloat.unpack Format.binary64 bits = .finite sign mantissa exponent hpos) :
    ∃ shift, exponent = exponentAt shift ∧ Canonical mantissa shift ∧ shift ≤ largestShift := by
  have hmantissa : (unpackMantissa bits).toNat < 2 ^ 52 := (unpackMantissa bits).isLt
  have hexponent : (unpackExponent bits).toNat < 2 ^ 11 := (unpackExponent bits).isLt
  simp only [UnpackedFloat.unpack] at hbits
  split at hbits
  · split at hbits <;> cases hbits
  · rename_i hlargest
    split at hbits
    · rename_i hzero
      split at hbits
      · cases hbits
      · simp only [finite.injEq] at hbits
        obtain ⟨_, rfl, rfl⟩ := hbits
        refine ⟨0, ?_, ⟨by omega, .inr rfl⟩, Nat.zero_le _⟩
        rw [hzero]
        rfl
    · rename_i hzero
      simp only [finite.injEq, toNat_append_one] at hbits
      obtain ⟨_, rfl, rfl⟩ := hbits
      have hpositive : (unpackExponent bits).toNat ≠ 0 := fun hnone =>
        hzero (BitVec.eq_of_toNat_eq hnone)
      have hbelow : (unpackExponent bits).toNat ≠ 2047 := fun hall =>
        hlargest (BitVec.eq_of_toNat_eq hall)
      refine ⟨(unpackExponent bits).toNat - 1, ?_, ⟨by omega, .inl (by omega)⟩, ?_⟩
      swap
      · change (unpackExponent bits).toNat - 1 ≤ 2045
        omega
      change ((unpackExponent bits).toNat : Int) - (1023 + 52) =
        ((unpackExponent bits).toNat - 1 : Nat) - 1074
      omega

/-! ### Numbers of units -/

/-- What is too large for a finite number. -/
def limit : Nat := 2 ^ 53 * 2 ^ largestShift

/-- The number stands for so many units of the least positive one. -/
inductive Reads : UnpackedFloat → Int → Prop
  | infinity (sign : Sign) : Reads (.infinity sign) (sign.apply (2 * limit : Nat))
  | zero (sign : Sign) : Reads (.zero sign) 0
  | finite (sign : Sign) {mantissa shift : Nat} (hpos : 0 < mantissa)
      (hcanonical : Canonical mantissa shift) (hbound : shift ≤ largestShift) :
      Reads (.finite sign mantissa (exponentAt shift) hpos)
        (sign.apply (mantissa * 2 ^ shift : Nat))

theorem limit_pos : 0 < limit := Nat.mul_pos (by decide) (Nat.two_pow_pos largestShift)

theorem Canonical.lt_limit {mantissa shift : Nat} (hcanonical : Canonical mantissa shift)
    (hbound : shift ≤ largestShift) : mantissa * 2 ^ shift < limit := by
  calc mantissa * 2 ^ shift < 2 ^ 53 * 2 ^ shift :=
        Nat.mul_lt_mul_of_pos_right hcanonical.fits (Nat.two_pow_pos shift)
    _ ≤ 2 ^ 53 * 2 ^ largestShift :=
        Nat.mul_le_mul_left _ (Nat.pow_le_pow_right (by decide) hbound)

theorem Canonical.lt_of_lt {small smallShift large largeShift : Nat}
    (hfits : small < 2 ^ 53) (hlarge : Canonical large largeShift)
    (hlt : smallShift < largeShift) : small * 2 ^ smallShift < large * 2 ^ largeShift := by
  have hfull : 2 ^ 52 ≤ large := hlarge.full.resolve_right (by omega)
  calc small * 2 ^ smallShift < 2 ^ 53 * 2 ^ smallShift :=
        Nat.mul_lt_mul_of_pos_right hfits (Nat.two_pow_pos smallShift)
    _ = 2 ^ 52 * 2 ^ (smallShift + 1) := by ring
    _ ≤ 2 ^ 52 * 2 ^ largeShift :=
        Nat.mul_le_mul_left _ (Nat.pow_le_pow_right (by decide) hlt)
    _ ≤ large * 2 ^ largeShift := Nat.mul_le_mul_right _ hfull

theorem Canonical.limit_le {mantissa shift : Nat} (hcanonical : Canonical mantissa shift)
    (hbound : ¬shift ≤ largestShift) : limit ≤ mantissa * 2 ^ shift := by
  have hfull : 2 ^ 52 ≤ mantissa := hcanonical.full.resolve_right (by omega)
  calc limit = 2 ^ 52 * 2 ^ (largestShift + 1) := by
        rw [limit]
        ring
    _ ≤ 2 ^ 52 * 2 ^ shift :=
        Nat.mul_le_mul_left _ (Nat.pow_le_pow_right (by decide) (by omega))
    _ ≤ mantissa * 2 ^ shift := Nat.mul_le_mul_right _ hfull

/-! ### Comparison -/

/-- Canonical numbers are compared by their exponents first. -/
theorem Canonical.compare_eq {first firstShift second secondShift : Nat}
    (hfirst : Canonical first firstShift) (hsecond : Canonical second secondShift) :
    (compare (exponentAt firstShift) (exponentAt secondShift)).then (compare first second) =
      compare (first * 2 ^ firstShift) (second * 2 ^ secondShift) := by
  rcases Nat.lt_trichotomy firstShift secondShift with hlt | rfl | hlt
  · rw [Nat.compare_eq_lt.mpr (hsecond.lt_of_lt hfirst.fits hlt),
      Int.compare_eq_lt.mpr (by unfold exponentAt; omega)]
    rfl
  · have hpow : 0 < 2 ^ firstShift := Nat.two_pow_pos firstShift
    rw [Int.compare_eq_eq.mpr rfl, Ordering.eq_then]
    simp only [Nat.compare_eq_ite_lt, Nat.mul_lt_mul_right hpow]
  · rw [Nat.compare_eq_gt.mpr (hfirst.lt_of_lt hsecond.fits hlt),
      Int.compare_eq_gt.mpr (by unfold exponentAt; omega)]
    rfl

theorem compare_natCast (left right : Nat) :
    compare (left : Int) (right : Int) = compare left right := by
  simp only [Int.compare_eq_ite_lt, Nat.compare_eq_ite_lt, Int.ofNat_lt]

theorem compare_neg_natCast (left right : Nat) :
    compare (-(left : Int)) (-(right : Int)) = (compare left right).swap := by
  rw [← compare_natCast, Int.compare_swap]
  simp only [Int.compare_eq_ite_lt, Int.neg_lt_neg_iff]

/-- The order of defined numbers is that of their units. -/
theorem Reads.compare_eq {first second : UnpackedFloat} {left right : Int}
    (hfirst : Reads first left) (hsecond : Reads second right) :
    first.compare second = some (compare left right) := by
  have hlimit := limit_pos
  have hless : ∀ {left right : Int}, left < right → some .lt = some (compare left right) :=
    fun hlt => congrArg some (Int.compare_eq_lt.mpr hlt).symm
  have hgreater : ∀ {left right : Int}, right < left → some .gt = some (compare left right) :=
    fun hlt => congrArg some (Int.compare_eq_gt.mpr hlt).symm
  have hsame : ∀ {number : Int}, some .eq = some (compare number number) :=
    congrArg some (Int.compare_eq_eq.mpr rfl).symm
  cases hfirst with
  | infinity sign =>
    cases hsecond with
    | infinity other =>
      cases sign <;> cases other
      · exact hsame
      · exact hless (by simp only [Sign.apply]; omega)
      · exact hgreater (by simp only [Sign.apply]; omega)
      · exact hsame
    | zero other =>
      cases sign
      · exact hless (by simp only [Sign.apply]; omega)
      · exact hgreater (by simp only [Sign.apply]; omega)
    | finite other hpos hcanonical hbound =>
      have hbelow := hcanonical.lt_limit hbound
      cases sign
      · exact hless (by cases other <;> simp only [Sign.apply] <;> omega)
      · exact hgreater (by cases other <;> simp only [Sign.apply] <;> omega)
  | zero sign =>
    cases hsecond with
    | infinity other =>
      cases other
      · exact hgreater (by simp only [Sign.apply]; omega)
      · exact hless (by simp only [Sign.apply]; omega)
    | zero other => exact hsame
    | @finite other mantissa shift hpos hcanonical hbound =>
      have hpositive : 0 < mantissa * 2 ^ shift := Nat.mul_pos hpos (Nat.two_pow_pos shift)
      cases other
      · exact hgreater (by simp only [Sign.apply]; omega)
      · exact hless (by simp only [Sign.apply]; omega)
  | @finite sign mantissa shift hpos hcanonical hbound =>
    have hbelow := hcanonical.lt_limit hbound
    have hpositive : 0 < mantissa * 2 ^ shift := Nat.mul_pos hpos (Nat.two_pow_pos shift)
    cases hsecond with
    | infinity other =>
      cases other
      · exact hgreater (by cases sign <;> simp only [Sign.apply] <;> omega)
      · exact hless (by cases sign <;> simp only [Sign.apply] <;> omega)
    | zero other =>
      cases sign
      · exact hless (by simp only [Sign.apply]; omega)
      · exact hgreater (by simp only [Sign.apply]; omega)
    | finite other hotherPos hother hotherBound =>
      cases sign <;> cases other
      · simp only [UnpackedFloat.compare, Sign.apply, compare_neg_natCast,
          hcanonical.compare_eq hother]
      · exact hless (by simp only [Sign.apply]; omega)
      · exact hgreater (by simp only [Sign.apply]; omega)
      · simp only [UnpackedFloat.compare, Sign.apply, compare_natCast,
          hcanonical.compare_eq hother]

/-! ### Rounding -/

/-- The magnitude that a magnitude is rounded to, an infinite one if it is too large. -/
def settled (value : Nat) : Nat := if rounded value < limit then rounded value else 2 * limit

/-- The number of units that a number of units is rounded to. -/
def settledUnits (value : Int) : Int :=
  if value < 0 then -(settled value.natAbs : Int) else settled value.natAbs

theorem rounded_limit : rounded limit = limit := by
  have hlimit : limit = 1 * 2 ^ (53 + largestShift) := by
    rw [limit, Nat.pow_add, Nat.one_mul]
  rw [hlimit, rounded_mul_pow (by decide)]

theorem settled_of_limit_le {value : Nat} (hle : limit ≤ value) : settled value = 2 * limit := by
  have hrounded := rounded_mono hle
  rw [rounded_limit] at hrounded
  rw [settled, if_neg (by omega)]

theorem settled_of_canonical {mantissa shift : Nat} (hcanonical : Canonical mantissa shift)
    (hbound : shift ≤ largestShift) : settled (mantissa * 2 ^ shift) = mantissa * 2 ^ shift := by
  rw [settled, rounded_mul_pow hcanonical.fits, if_pos (hcanonical.lt_limit hbound)]

theorem settled_zero : settled 0 = 0 := by
  have hzero : rounded 0 = 0 := by
    simpa using rounded_mul_pow (by decide : 0 < 2 ^ 53) 0
  rw [settled, hzero, if_pos limit_pos]

theorem settled_mono {small large : Nat} (hle : small ≤ large) : settled small ≤ settled large := by
  have hrounded := rounded_mono hle
  unfold settled
  split_ifs <;> omega

theorem settledUnits_mono {small large : Int} (hle : small ≤ large) :
    settledUnits small ≤ settledUnits large := by
  unfold settledUnits
  split_ifs with hsmall hlarge hlarge
  · have hsettled : settled large.natAbs ≤ settled small.natAbs := settled_mono (by omega)
    omega
  · omega
  · omega
  · have hsettled : settled small.natAbs ≤ settled large.natAbs := settled_mono (by omega)
    omega

theorem settledUnits_apply (sign : Sign) (value : Nat) :
    settledUnits (sign.apply value) = sign.apply (settled value) := by
  cases sign with
  | positive =>
    change settledUnits (value : Int) = (settled value : Int)
    rw [settledUnits, if_neg (by omega), Int.natAbs_natCast]
  | negative =>
    change settledUnits (-(value : Int)) = -(settled value : Int)
    rcases Nat.eq_zero_or_pos value with rfl | hpos
    · simp [settledUnits, settled_zero]
    · rw [settledUnits, if_pos (by omega), Int.natAbs_neg, Int.natAbs_natCast]

theorem reads_round (sign : Sign) {mantissa : Nat} (hpos : 0 < mantissa) (shift : Nat) :
    Reads (repack (UnpackedFloat.round Format.binary64 sign mantissa (exponentAt shift)))
      (sign.apply (settled (mantissa * 2 ^ shift) : Nat)) := by
  obtain ⟨units, bits, hunits, hcanonical, hvalue, hround⟩ := exists_round_eq sign hpos shift
  rw [hround, repack_finite sign hunits hcanonical, settled, ← hvalue]
  split_ifs with hbound hlimit hlimit
  · exact .finite sign hunits hcanonical hbound
  · exact absurd (hcanonical.lt_limit hbound) hlimit
  · exact absurd (hcanonical.limit_le hbound) (by omega)
  · exact .infinity sign

/-- What is brought to its exponent is rounded, whatever its sign. -/
theorem reads_normalize (mantissa : Int) (shift : Nat) (zeroSign : Sign) :
    Reads (repack (UnpackedFloat.normalize Format.binary64 mantissa (exponentAt shift) zeroSign))
      (settledUnits (mantissa * 2 ^ shift)) := by
  rcases Int.lt_trichotomy mantissa 0 with hnegative | rfl | hpositive
  · obtain ⟨value, rfl⟩ : ∃ value : Nat, mantissa = -value := ⟨mantissa.natAbs, by omega⟩
    have hround := reads_round .negative (by omega : 0 < value) shift
    rw [← settledUnits_apply] at hround
    simpa [UnpackedFloat.normalize, Int.compare_eq_lt.mpr hnegative, Sign.apply] using hround
  · have hzero : Reads (repack (.zero zeroSign)) 0 := by
      rw [repack_zero]
      exact .zero zeroSign
    simpa [UnpackedFloat.normalize, settledUnits, settled_zero] using hzero
  · obtain ⟨value, rfl⟩ : ∃ value : Nat, mantissa = value := ⟨mantissa.natAbs, by omega⟩
    have hround := reads_round .positive (by omega : 0 < value) shift
    rw [← settledUnits_apply] at hround
    simpa [UnpackedFloat.normalize, Int.compare_eq_gt.mpr hpositive, Sign.apply] using hround

/-! ### Sums and differences -/

theorem Reads.settledUnits_eq {number : UnpackedFloat} {value : Int} (hreads : Reads number value) :
    settledUnits value = value := by
  cases hreads with
  | infinity sign => rw [settledUnits_apply, settled_of_limit_le (by omega)]
  | zero sign => simp [settledUnits, settled_zero]
  | finite sign hpos hcanonical hbound =>
    rw [settledUnits_apply, settled_of_canonical hcanonical hbound]

theorem Reads.natAbs_le {number : UnpackedFloat} {value : Int} (hreads : Reads number value) :
    value.natAbs ≤ 2 * limit := by
  cases hreads with
  | infinity sign => cases sign <;> simp only [Sign.apply] <;> omega
  | zero sign => exact Nat.zero_le _
  | finite sign hpos hcanonical hbound =>
    have hbelow := hcanonical.lt_limit hbound
    cases sign <;> simp only [Sign.apply] <;> omega

/-- Two infinite numbers of opposite signs, which have no sum. -/
def Cancel (left right : Int) : Prop := left.natAbs = 2 * limit ∧ right = -left

theorem repack_of_reads {number : UnpackedFloat} {value : Int} (hreads : Reads number value) :
    repack number = number := by
  cases hreads with
  | infinity sign => exact repack_infinity sign
  | zero sign => exact repack_zero sign
  | finite sign hpos hcanonical hbound => rw [repack_finite sign hpos hcanonical, if_pos hbound]

theorem exponentAt_min (left right : Nat) :
    min (exponentAt left) (exponentAt right) = exponentAt (min left right) := by
  unfold exponentAt
  omega

theorem apply_decreaseExponent (sign : Sign) (mantissa : Nat) {shift lower : Nat}
    (hle : lower ≤ shift) :
    sign.apply ((decreaseExponent mantissa (exponentAt shift) (exponentAt lower)).1 : Nat) *
      2 ^ lower = sign.apply (mantissa * 2 ^ shift : Nat) := by
  have hamount : (exponentAt shift - exponentAt lower).toNat = shift - lower := by
    unfold exponentAt
    omega
  have hvalue : mantissa * 2 ^ (shift - lower) * 2 ^ lower = mantissa * 2 ^ shift := by
    rw [Nat.mul_assoc, ← Nat.pow_add, Nat.sub_add_cancel hle]
  rw [decreaseExponent, hamount, Nat.shiftLeft_eq, ← hvalue]
  cases sign <;> simp [Sign.apply]

theorem reads_add_finite (sign other : Sign) {mantissa otherMantissa : Nat} (shift otherShift : Nat)
    (hpos : 0 < mantissa) (hotherPos : 0 < otherMantissa) :
    Reads (repack (UnpackedFloat.add Format.binary64
        (.finite sign mantissa (exponentAt shift) hpos)
        (.finite other otherMantissa (exponentAt otherShift) hotherPos)))
      (settledUnits (sign.apply (mantissa * 2 ^ shift : Nat) +
        other.apply (otherMantissa * 2 ^ otherShift : Nat))) := by
  rw [← apply_decreaseExponent sign mantissa (Nat.min_le_left shift otherShift),
    ← apply_decreaseExponent other otherMantissa (Nat.min_le_right shift otherShift), ← Int.add_mul]
  simp only [UnpackedFloat.add, exponentAt_min]
  exact reads_normalize _ _ _

theorem Reads.repack {number : UnpackedFloat} {value : Int} (hreads : Reads number value) :
    Reads (repack number) (settledUnits value) := by
  rwa [repack_of_reads hreads, hreads.settledUnits_eq]

/-- What is beyond the finite numbers is infinite once it is rounded. -/
theorem reads_infinity (sign : Sign) {value : Int} (hlarge : (limit : Int) ≤ sign.apply value) :
    Reads (Binary64.repack (.infinity sign)) (settledUnits value) := by
  obtain ⟨magnitude, hmagnitude, rfl⟩ :
      ∃ magnitude : Nat, limit ≤ magnitude ∧ value = sign.apply magnitude := by
    refine ⟨value.natAbs, ?_, ?_⟩ <;> cases sign <;> simp only [Sign.apply] at hlarge ⊢ <;> omega
  rw [repack_infinity, settledUnits_apply, settled_of_limit_le hmagnitude]
  exact .infinity sign

/-- A defined sum is the exact one, rounded. -/
theorem Reads.add {first second : UnpackedFloat} {left right : Int} (hfirst : Reads first left)
    (hsecond : Reads second right) (hcancel : ¬Cancel left right) :
    Reads (Binary64.repack (UnpackedFloat.add Format.binary64 first second))
      (settledUnits (left + right)) := by
  have hlimit := limit_pos
  cases hfirst with
  | infinity sign =>
    cases hsecond with
    | infinity other =>
      cases sign <;> cases other
      · exact reads_infinity .negative (by simp only [Sign.apply]; omega)
      · exact absurd ⟨by simp only [Sign.apply]; omega, (Int.neg_neg _).symm⟩ hcancel
      · exact absurd ⟨by simp only [Sign.apply]; omega, rfl⟩ hcancel
      · exact reads_infinity .positive (by simp only [Sign.apply]; omega)
    | zero other => exact reads_infinity sign (by cases sign <;> simp only [Sign.apply] <;> omega)
    | finite other hpos hcanonical hbound =>
      have hbelow := hcanonical.lt_limit hbound
      exact reads_infinity sign
        (by cases sign <;> cases other <;> simp only [Sign.apply] <;> omega)
  | zero sign =>
    rw [Int.zero_add]
    cases hsecond with
    | infinity other => exact (Reads.infinity other).repack
    | zero other =>
      have hzero : ∀ sign : Sign, Reads (Binary64.repack (.zero sign)) (settledUnits 0) :=
        fun sign => (Reads.zero sign).repack
      cases sign <;> cases other <;> exact hzero _
    | finite other hpos hcanonical hbound =>
      exact (Reads.finite other hpos hcanonical hbound).repack
  | finite sign hpos hcanonical hbound =>
    have hbelow := hcanonical.lt_limit hbound
    cases hsecond with
    | infinity other =>
      exact reads_infinity other
        (by cases sign <;> cases other <;> simp only [Sign.apply] <;> omega)
    | zero other =>
      rw [Int.add_zero]
      exact (Reads.finite sign hpos hcanonical hbound).repack
    | finite other hotherPos hother hotherBound =>
      exact reads_add_finite sign other _ _ hpos hotherPos

theorem Reads.exists_eq_infinity {number : UnpackedFloat} {value : Int}
    (hreads : Reads number value) (hinfinite : value.natAbs = 2 * limit) :
    ∃ sign : Sign, number = .infinity sign ∧ value = sign.apply (2 * limit : Nat) := by
  have hlimit := limit_pos
  cases hreads with
  | infinity sign => exact ⟨sign, rfl, rfl⟩
  | zero sign => rw [Int.natAbs_zero] at hinfinite; omega
  | finite sign hpos hcanonical hbound =>
    have hbelow := hcanonical.lt_limit hbound
    cases sign <;> simp only [Sign.apply] at hinfinite <;> omega

theorem add_eq_notANumber {first second : UnpackedFloat} {left right : Int}
    (hfirst : Reads first left) (hsecond : Reads second right) (hcancel : Cancel left right) :
    UnpackedFloat.add Format.binary64 first second = .notANumber := by
  have hlimit := limit_pos
  obtain ⟨hinfinite, hopposite⟩ := hcancel
  obtain ⟨sign, rfl, hleft⟩ := hfirst.exists_eq_infinity hinfinite
  obtain ⟨other, rfl, hright⟩ := hsecond.exists_eq_infinity (by omega)
  cases sign <;> cases other <;> simp only [Sign.apply] at hleft hright <;> first | rfl | omega

theorem apply_neg (sign : Sign) (value : Int) : (-sign).apply value = -sign.apply value := by
  cases sign with
  | negative => exact (Int.neg_neg value).symm
  | positive => rfl

theorem sub_eq_add_neg (first second : UnpackedFloat) :
    UnpackedFloat.sub Format.binary64 first second =
      UnpackedFloat.add Format.binary64 first second.neg := by
  cases first <;> cases second <;>
    first
    | rfl
    | simp only [UnpackedFloat.sub, UnpackedFloat.add, UnpackedFloat.neg, apply_neg,
        Int.sub_eq_add_neg]

theorem Reads.neg {number : UnpackedFloat} {value : Int} (hreads : Reads number value) :
    Reads number.neg (-value) := by
  cases hreads with
  | infinity sign =>
    rw [← apply_neg]
    exact .infinity (-sign)
  | zero sign => exact .zero (-sign)
  | finite sign hpos hcanonical hbound =>
    rw [← apply_neg]
    exact .finite (-sign) hpos hcanonical hbound

/-! ### Floating-point numbers -/

/-- The floating-point number stands for so many units of the least positive one. -/
def Stands (number : Float) (value : Int) : Prop := Reads number.toModel.unpack value

theorem notANumber_or_stands (number : Float) :
    number.toModel.unpack = .notANumber ∨ ∃ value, Stands number value := by
  cases hnumber : number.toModel.unpack with
  | notANumber => exact .inl rfl
  | infinity sign => exact .inr ⟨_, hnumber ▸ Reads.infinity sign⟩
  | zero sign => exact .inr ⟨_, hnumber ▸ Reads.zero sign⟩
  | finite sign mantissa exponent hpos =>
    obtain ⟨shift, rfl, hcanonical, hbound⟩ := exists_of_unpack_eq_finite hnumber
    exact .inr ⟨_, hnumber ▸ Reads.finite sign hpos hcanonical hbound⟩

theorem le_iff_compare {left right : Float} :
    left ≤ right ↔
      (left.toModel.unpack.compare right.toModel.unpack).any (·.isLE) = true := by
  change decide _ = true ↔ _
  rw [decide_eq_true_iff]
  rfl

theorem lt_iff_compare {left right : Float} :
    left < right ↔ left.toModel.unpack.compare right.toModel.unpack = some .lt := by
  change decide _ = true ↔ _
  rw [decide_eq_true_iff]
  change (_ == _) = true ↔ _
  rw [beq_iff_eq]

theorem beq_iff_compare {left right : Float} :
    (left == right) = true ↔ left.toModel.unpack.compare right.toModel.unpack = some .eq := by
  change (left.toModel.unpack.compare right.toModel.unpack == some .eq) = true ↔ _
  rw [beq_iff_eq]

theorem Stands.unique {number : Float} {value other : Int} (hvalue : Stands number value)
    (hother : Stands number other) : value = other := by
  have hsame := (hvalue.compare_eq hvalue).symm.trans (hvalue.compare_eq hother)
  rw [Int.compare_eq_eq.mpr rfl] at hsame
  exact Int.compare_eq_eq.mp (Option.some.inj hsame).symm

theorem Stands.le_iff {left right : Float} {small large : Int} (hleft : Stands left small)
    (hright : Stands right large) : left ≤ right ↔ small ≤ large := by
  rw [le_iff_compare, hleft.compare_eq hright, Option.any_some, Int.isLE_compare]

theorem stands_of_compare {left right : Float} {order : Ordering}
    (horder : left.toModel.unpack.compare right.toModel.unpack = some order) :
    (∃ small, Stands left small) ∧ ∃ large, Stands right large := by
  rcases notANumber_or_stands left with hleft | hleft
  · rw [hleft] at horder
    cases horder
  · refine ⟨hleft, ?_⟩
    rcases notANumber_or_stands right with hright | hright
    · rw [hright] at horder
      cases hnumber : left.toModel.unpack <;> rw [hnumber] at horder <;> cases horder
    · exact hright

theorem stands_of_le {left right : Float} (hle : left ≤ right) :
    ∃ small large, Stands left small ∧ Stands right large ∧ small ≤ large := by
  have hany := le_iff_compare.mp hle
  cases horder : left.toModel.unpack.compare right.toModel.unpack with
  | none =>
    rw [horder] at hany
    cases hany
  | some order =>
    obtain ⟨⟨small, hsmall⟩, large, hlarge⟩ := stands_of_compare horder
    exact ⟨small, large, hsmall, hlarge, (hsmall.le_iff hlarge).mp hle⟩

theorem Stands.add {left right : Float} {first second : Int} (hleft : Stands left first)
    (hright : Stands right second) (hcancel : ¬Cancel first second) :
    Stands (left + right) (settledUnits (first + second)) :=
  Reads.add hleft hright hcancel

theorem Stands.sub {left right : Float} {first second : Int} (hleft : Stands left first)
    (hright : Stands right second) (hcancel : ¬Cancel first (-second)) :
    Stands (left - right) (settledUnits (first - second)) := by
  have hsum := Reads.add hleft (Reads.neg hright) hcancel
  rw [← sub_eq_add_neg, ← Int.sub_eq_add_neg] at hsum
  exact hsum

theorem Reads.not_cancel {first second : UnpackedFloat} {sum : Int}
    (hsum : Reads (Binary64.repack (UnpackedFloat.add Format.binary64 first second)) sum) :
    first ≠ .notANumber ∧ second ≠ .notANumber ∧
      ∀ left right, Reads first left → Reads second right → ¬Cancel left right := by
  have hundefined : ¬Reads (Binary64.repack .notANumber) sum := nofun
  refine ⟨?_, ?_, fun left right hleft hright hcancel => ?_⟩
  · rintro rfl
    exact hundefined hsum
  · rintro rfl
    cases first <;> exact hundefined hsum
  · rw [add_eq_notANumber hleft hright hcancel] at hsum
    exact hundefined hsum

theorem stands_of_add {left right : Float} {sum : Int} (hsum : Stands (left + right) sum) :
    ∃ first second, Stands left first ∧ Stands right second ∧ ¬Cancel first second := by
  obtain ⟨hleft, hright, hcancel⟩ := Reads.not_cancel hsum
  obtain ⟨first, hfirst⟩ := (notANumber_or_stands left).resolve_left hleft
  obtain ⟨second, hsecond⟩ := (notANumber_or_stands right).resolve_left hright
  exact ⟨first, second, hfirst, hsecond, hcancel first second hfirst hsecond⟩

theorem stands_of_sub {left right : Float} {difference : Int}
    (hdifference : Stands (left - right) difference) :
    ∃ first second, Stands left first ∧ Stands right second ∧ ¬Cancel first (-second) := by
  have hsum : Reads (Binary64.repack (UnpackedFloat.add Format.binary64 left.toModel.unpack
      right.toModel.unpack.neg)) difference := by
    rw [← sub_eq_add_neg]
    exact hdifference
  obtain ⟨hleft, hright, hcancel⟩ := Reads.not_cancel hsum
  have hdefined : right.toModel.unpack ≠ .notANumber := by
    intro hundefined
    rw [hundefined] at hright
    exact hright rfl
  obtain ⟨first, hfirst⟩ := (notANumber_or_stands left).resolve_left hleft
  obtain ⟨second, hsecond⟩ := (notANumber_or_stands right).resolve_left hdefined
  exact ⟨first, second, hfirst, hsecond, hcancel first (-second) hfirst hsecond.neg⟩

theorem stands_zero : Stands 0 0 := .zero .positive

theorem Stands.defined {number : Float} {value : Int} (hnumber : Stands number value) :
    number ≤ number :=
  (hnumber.le_iff hnumber).mpr le_rfl

theorem Stands.lt_iff {left right : Float} {small large : Int} (hleft : Stands left small)
    (hright : Stands right large) : left < right ↔ small < large := by
  rw [lt_iff_compare, hleft.compare_eq hright, Option.some_inj, Int.compare_eq_lt]

theorem stands_of_defined {number : Float} (hdefined : number ≤ number) :
    ∃ value, Stands number value := by
  obtain ⟨value, _, hvalue, _⟩ := stands_of_le hdefined
  exact ⟨value, hvalue⟩

theorem stands_of_nonneg {number : Float} (hnonneg : 0 ≤ number) :
    ∃ value, Stands number value ∧ 0 ≤ value := by
  obtain ⟨zero, value, hzero, hvalue, hle⟩ := stands_of_le hnonneg
  rw [hzero.unique stands_zero] at hle
  exact ⟨value, hvalue, hle⟩

/-- A smaller number does not cancel what a larger one does not. -/
theorem Cancel.mono {base small large : Int} (hsmall : 0 ≤ small) (hle : small ≤ large)
    (hlarge : large.natAbs ≤ 2 * limit) (hcancel : Cancel base small) : Cancel base large := by
  unfold Cancel at hcancel ⊢
  omega

theorem Cancel.neg_mono {base small large : Int} (hsmall : 0 ≤ small) (hle : small ≤ large)
    (hlarge : large.natAbs ≤ 2 * limit) (hcancel : Cancel base (-small)) :
    Cancel base (-large) := by
  unfold Cancel at hcancel ⊢
  omega

theorem add_le_add_of_defined {base small large : Float} (hsmall : 0 ≤ small) (hle : small ≤ large)
    (hdefined : base + large ≤ base + large) : base + small ≤ base + large := by
  obtain ⟨sum, hsum⟩ := stands_of_defined hdefined
  obtain ⟨start, far, hstart, hfar, hcancel⟩ := stands_of_add hsum
  obtain ⟨near, hnear, hnonneg⟩ := stands_of_nonneg hsmall
  have hunits := (hnear.le_iff hfar).mp hle
  have hnot : ¬Cancel start near := fun hnear => hcancel (hnear.mono hnonneg hunits hfar.natAbs_le)
  rw [(hstart.add hnear hnot).le_iff (hstart.add hfar hcancel)]
  exact settledUnits_mono (by omega)

theorem le_add_of_defined {base margin : Float} (hmargin : 0 ≤ margin)
    (hdefined : base + margin ≤ base + margin) : base ≤ base + margin := by
  obtain ⟨sum, hsum⟩ := stands_of_defined hdefined
  obtain ⟨start, far, hstart, hfar, hcancel⟩ := stands_of_add hsum
  obtain ⟨units, hunits, hnonneg⟩ := stands_of_nonneg hmargin
  obtain rfl := hfar.unique hunits
  rw [hstart.le_iff (hstart.add hfar hcancel)]
  calc start = settledUnits start := hstart.settledUnits_eq.symm
    _ ≤ settledUnits (start + far) := settledUnits_mono (by omega)

theorem sub_le_sub_of_defined {base small large : Float} (hsmall : 0 ≤ small) (hle : small ≤ large)
    (hdefined : base - large ≤ base - large) : base - large ≤ base - small := by
  obtain ⟨difference, hdifference⟩ := stands_of_defined hdefined
  obtain ⟨start, far, hstart, hfar, hcancel⟩ := stands_of_sub hdifference
  obtain ⟨near, hnear, hnonneg⟩ := stands_of_nonneg hsmall
  have hunits := (hnear.le_iff hfar).mp hle
  have hnot : ¬Cancel start (-near) := fun hnear =>
    hcancel (hnear.neg_mono hnonneg hunits hfar.natAbs_le)
  rw [(hstart.sub hfar hcancel).le_iff (hstart.sub hnear hnot)]
  exact settledUnits_mono (by omega)

theorem sub_le_of_defined {base margin : Float} (hmargin : 0 ≤ margin)
    (hdefined : base - margin ≤ base - margin) : base - margin ≤ base := by
  obtain ⟨difference, hdifference⟩ := stands_of_defined hdefined
  obtain ⟨start, far, hstart, hfar, hcancel⟩ := stands_of_sub hdifference
  obtain ⟨units, hunits, hnonneg⟩ := stands_of_nonneg hmargin
  obtain rfl := hfar.unique hunits
  rw [(hstart.sub hfar hcancel).le_iff hstart]
  calc settledUnits (start - far) ≤ settledUnits start := settledUnits_mono (by omega)
    _ = start := hstart.settledUnits_eq

/-! ### The laws -/

theorem lt_iff_le_and_not_le {left right : Float} :
    left < right ↔ left ≤ right ∧ ¬right ≤ left := by
  constructor
  · intro hlt
    obtain ⟨⟨small, hsmall⟩, large, hlarge⟩ := stands_of_compare (lt_iff_compare.mp hlt)
    rw [hsmall.lt_iff hlarge] at hlt
    rw [hsmall.le_iff hlarge, hlarge.le_iff hsmall]
    omega
  · rintro ⟨hle, hnot⟩
    obtain ⟨small, large, hsmall, hlarge, _⟩ := stands_of_le hle
    rw [hlarge.le_iff hsmall] at hnot
    rw [hsmall.lt_iff hlarge]
    omega

theorem beq_self_iff {number : Float} : (number == number) = true ↔ number ≤ number := by
  constructor
  · intro hsame
    obtain ⟨⟨value, hvalue⟩, _⟩ := stands_of_compare (beq_iff_compare.mp hsame)
    exact hvalue.defined
  · intro hdefined
    obtain ⟨value, hvalue⟩ := stands_of_defined hdefined
    rw [beq_iff_compare, hvalue.compare_eq hvalue, Int.compare_eq_eq.mpr rfl]

/-- Numbers that no comparison tells apart stand for the same, if for anything. -/
theorem Stands.of_indistinct {left right : Float} {value : Int} (hleft : Stands left value)
    (hsame : Scalar.Indistinct left right) : Stands right value := by
  have hle : left ≤ right := (hsame left).2.mp hleft.defined
  have hge : right ≤ left := (hsame left).1.mp hleft.defined
  obtain ⟨other, _, hright, _⟩ := stands_of_le hge
  rw [hleft.le_iff hright] at hle
  rw [hright.le_iff hleft] at hge
  rwa [Int.le_antisymm hle hge]

theorem indistinct_of_stands {left right : Float}
    (hsame : ∀ value, Stands left value ↔ Stands right value) :
    Scalar.Indistinct left right := by
  intro other
  have hcompare : ∀ {first second : Float}, (∀ value, Stands first value → Stands second value) →
      (first ≤ other → second ≤ other) ∧ (other ≤ first → other ≤ second) := by
    intro first second hstands
    constructor
    · intro hle
      obtain ⟨small, large, hsmall, hlarge, hvalues⟩ := stands_of_le hle
      exact ((hstands small hsmall).le_iff hlarge).mpr hvalues
    · intro hle
      obtain ⟨small, large, hsmall, hlarge, hvalues⟩ := stands_of_le hle
      exact (hsmall.le_iff (hstands large hlarge)).mpr hvalues
  obtain ⟨hbelow, habove⟩ := hcompare fun value => (hsame value).mp
  obtain ⟨hbelow', habove'⟩ := hcompare fun value => (hsame value).mpr
  exact ⟨⟨hbelow, hbelow'⟩, habove, habove'⟩

theorem indistinct_add {left right : Float} (hsame : Scalar.Indistinct left right)
    (other : Float) : Scalar.Indistinct (left + other) (right + other) := by
  have hstands : ∀ {first second : Float}, Scalar.Indistinct first second →
      ∀ value, Stands (first + other) value → Stands (second + other) value := by
    intro first second hsame value hsum
    obtain ⟨base, margin, hfirst, hother, hcancel⟩ := stands_of_add hsum
    rw [hsum.unique (hfirst.add hother hcancel)]
    exact (hfirst.of_indistinct hsame).add hother hcancel
  exact indistinct_of_stands fun value =>
    ⟨hstands hsame value, hstands (hsame.symm) value⟩

theorem indistinct_sub {left right : Float} (hsame : Scalar.Indistinct left right)
    (other : Float) : Scalar.Indistinct (left - other) (right - other) := by
  have hstands : ∀ {first second : Float}, Scalar.Indistinct first second →
      ∀ value, Stands (first - other) value → Stands (second - other) value := by
    intro first second hsame value hdifference
    obtain ⟨base, margin, hfirst, hother, hcancel⟩ := stands_of_sub hdifference
    rw [hdifference.unique (hfirst.sub hother hcancel)]
    exact (hfirst.of_indistinct hsame).sub hother hcancel
  exact indistinct_of_stands fun value =>
    ⟨hstands hsame value, hstands (hsame.symm) value⟩

theorem indistinct_of_beq {left right : Float} (hequal : (left == right) = true) :
    Scalar.Indistinct left right := by
  have horder := beq_iff_compare.mp hequal
  obtain ⟨⟨value, hleft⟩, other, hright⟩ := stands_of_compare horder
  rw [hleft.compare_eq hright, Option.some_inj, Int.compare_eq_eq] at horder
  subst horder
  apply indistinct_of_stands
  intro number
  constructor
  · intro hnumber
    rwa [hnumber.unique hleft]
  · intro hnumber
    rwa [hnumber.unique hright]

end LabelPlacement.Binary64

namespace LabelPlacement

open Binary64

instance : LawfulScalar Float where
  le_trans hfirst hsecond := by
    obtain ⟨first, second, hsmall, hmiddle, hle⟩ := stands_of_le hfirst
    obtain ⟨third, fourth, hother, hlarge, hnext⟩ := stands_of_le hsecond
    have hsame := hmiddle.unique hother
    exact (hsmall.le_iff hlarge).mpr (by omega)
  lt_iff := lt_iff_le_and_not_le
  beq_self := beq_self_iff
  le_total hleft hright := by
    obtain ⟨left, hleft⟩ := stands_of_defined hleft
    obtain ⟨right, hright⟩ := stands_of_defined hright
    rw [hleft.le_iff hright, hright.le_iff hleft]
    exact Int.le_total left right
  left_of_le hle := by
    obtain ⟨_, _, hleft, _⟩ := stands_of_le hle
    exact hleft.defined
  right_of_le hle := by
    obtain ⟨_, _, _, hright, _⟩ := stands_of_le hle
    exact hright.defined
  zero_le_zero := stands_zero.defined
  add_le_add := add_le_add_of_defined
  le_add := le_add_of_defined
  sub_le_sub := sub_le_sub_of_defined
  sub_le := sub_le_of_defined

instance : LawfulEquality Float where
  indistinct_of_beq := indistinct_of_beq
  indistinct_add := indistinct_add
  indistinct_sub := indistinct_sub

end LabelPlacement
