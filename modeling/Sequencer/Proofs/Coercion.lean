import Mathlib.Algebra.Order.Field.Power
import Mathlib.Algebra.Order.Floor.Semifield
import Mathlib.Data.Rat.Floor
import Mathlib.Tactic.FieldSimp
import Mathlib.Tactic.Ring
import Mathlib.Tactic.Positivity
import Sequencer.Primitive

/-!
# Operands are magnitudes modulo a width

The exact value of a number is a rational one.  Whatever type a number has, its operand is the
whole part of the absolute value, modulo the width.

* `BinaryFormat.rational?`, `Primitive.rational?` — the exact value, nothing for infinities
  and NaN.
* `toNat_reduceUnsigned`, `toNat_abs` — no cast of an integer loses anything, and the least
  integer of a type has the right magnitude.
* `Magnitude.floor_remainder` — a remainder may be taken before the fraction is cut off.
* `Primitive.coerced_magnitude` — all types at once.
-/

namespace Sequencer

/-! ## Exact values -/

/-- The absolute value as a rational number. -/
def Scaled.value (scaled : Scaled) : ℚ :=
  scaled.significand * 2 ^ scaled.exponent

theorem Scaled.floor_eq (scaled : Scaled) : scaled.floor = ⌊scaled.value⌋₊ := by
  obtain ⟨significand, exponent⟩ := scaled
  unfold floor value
  simp only
  split
  next fraction =>
    obtain ⟨shift, rfl⟩ := Int.exists_eq_neg_ofNat fraction.le
    have quotient := Nat.floor_div_eq_div (K := ℚ) significand (2 ^ shift)
    rw [neg_neg, Int.toNat_natCast, Nat.shiftRight_eq_div_pow, zpow_neg, zpow_natCast,
      ← div_eq_mul_inv, ← quotient, Nat.cast_pow, Nat.cast_ofNat]
  next whole =>
    obtain ⟨shift, rfl⟩ := Int.eq_ofNat_of_zero_le (not_lt.mp whole)
    have product := Nat.floor_natCast (R := ℚ) (significand * 2 ^ shift)
    rw [Int.toNat_natCast, Nat.shiftLeft_eq, zpow_natCast, ← product, Nat.cast_mul, Nat.cast_pow,
      Nat.cast_ofNat]

namespace BinaryFormat

/-- What is subtracted from a biased exponent. -/
def bias (format : BinaryFormat) : ℤ :=
  2 ^ (format.exponentBits - 1) - 1

/-- The number with the given bits: a sign, a power of two, and a fraction of the power on top of
it.  Below the least power there is only the fraction.  The highest biased exponent is kept for
infinities and NaN. -/
def rational? (format : BinaryFormat) (bits : Nat) : Option ℚ :=
  let sign : ℚ := (-1) ^ (bits / 2 ^ (format.fractionBits + format.exponentBits))
  let biased := bits / 2 ^ format.fractionBits % 2 ^ format.exponentBits
  let fraction : ℚ := (bits % 2 ^ format.fractionBits : Nat) / 2 ^ format.fractionBits
  if biased = 2 ^ format.exponentBits - 1 then none
  else if biased = 0 then some (sign * 2 ^ (1 - format.bias) * fraction)
  else some (sign * 2 ^ (biased - format.bias) * (1 + fraction))

theorem value_magnitude? (format : BinaryFormat) (bits : Nat) :
    (format.magnitude? bits).map Scaled.value = (format.rational? bits).map abs := by
  have least : format.leastExponent = 1 - format.bias - format.fractionBits := by
    rw [leastExponent, bias, Nat.one_shiftLeft, Nat.cast_pow, Nat.cast_ofNat]
    ring
  simp only [magnitude?, rational?, Nat.one_shiftLeft, Nat.shiftRight_eq_div_pow]
  generalize bits / 2 ^ format.fractionBits % 2 ^ format.exponentBits = biased
  generalize bits % 2 ^ format.fractionBits = fraction
  have scale : ∀ exponent : ℤ, (2 : ℚ) ^ (exponent - format.fractionBits) =
      2 ^ exponent / 2 ^ format.fractionBits := by
    intro exponent
    rw [zpow_sub₀ (by norm_num), zpow_natCast]
  split
  next => rfl
  next =>
    split
    next =>
      rw [Option.map_some, Option.map_some, Scaled.value, least, scale, abs_mul, abs_mul, abs_pow,
        abs_neg, abs_one, one_pow, one_mul, abs_of_pos (by positivity),
        abs_of_nonneg (by positivity)]
      congr 1
      ring
    next normal =>
      have shifted : format.leastExponent + (biased - 1 : Nat) =
          biased - format.bias - format.fractionBits := by
        rw [least]
        omega
      rw [Option.map_some, Option.map_some, Scaled.value, shifted, scale, abs_mul, abs_mul, abs_pow,
        abs_neg, abs_one, one_pow, one_mul, abs_of_pos (by positivity), abs_of_pos (by positivity)]
      push_cast
      congr 1
      field_simp

end BinaryFormat

/-! ## Integers -/

theorem toNat_reduceUnsigned {width : Nat} (fits : width ≤ 128) (value : BitVec width)
    {modulus : UInt32} (positive : 0 < modulus) :
    (reduceUnsigned value modulus).toNat = value.toNat % modulus.toNat := by
  have wide : value.toNat < 2 ^ 128 :=
    value.isLt.trans_le (Nat.pow_le_pow_right (by decide) fits)
  have small : value.toNat % modulus.toNat < 2 ^ 32 :=
    (Nat.mod_lt _ positive).trans modulus.toNat_lt
  have modulusFits : modulus.toNat < 2 ^ 128 := modulus.toNat_lt.trans (by decide)
  rw [reduceUnsigned, UInt32.toNat_ofBitVec, BitVec.toNat_setWidth, BitVec.toNat_umod,
    BitVec.toNat_setWidth, BitVec.toNat_setWidth, UInt32.toNat_toBitVec,
    Nat.mod_eq_of_lt wide, Nat.mod_eq_of_lt modulusFits, Nat.mod_eq_of_lt small]

/-- The bits of the magnitude are right for the least integer as well. -/
theorem toNat_abs {width : Nat} (value : BitVec width) : value.abs.toNat = value.toInt.natAbs := by
  have bounded := value.isLt
  rw [BitVec.toNat_abs, BitVec.toInt_eq_msb_cond]
  split <;> omega

/-! ## Floating-point numbers -/

namespace Magnitude

/-- A remainder by a whole number has a whole part that is a remainder. -/
theorem floor_remainder (value : Magnitude .double) {modulus : UInt32} (positive : 0 < modulus) :
    (value.remainder modulus positive).floor = value.floor % modulus.toNat := by
  unfold remainder
  split
  next fraction =>
    simp only [Scaled.floor, if_pos fraction]
    rw [Nat.shiftRight_eq_div_pow, Nat.shiftRight_eq_div_pow, Nat.shiftLeft_eq, Nat.mul_comm,
      Nat.mod_mul_right_div_self]
  next whole =>
    simp [Scaled.floor, ofNat, if_neg whole]

theorem floor_truncate (value : Magnitude .double) : value.truncate.floor = value.floor := by
  unfold truncate
  split
  next => simp [Scaled.floor, ofNat]
  next => rfl

theorem toNat_toWord (value : Magnitude .double) :
    value.toWord.toNat = min value.floor (UInt32.size - 1) := by
  rw [toWord, UInt32.toNat_ofNat', UInt32.size]
  omega

end Magnitude

theorem toNat_reduceDouble (value : Option (Magnitude .double)) {modulus : UInt32}
    (positive : 0 < modulus) : (reduceDouble value modulus positive).toNat =
      (value.map fun value => value.floor).getD 0 % modulus.toNat := by
  cases value with
  | none => exact (Nat.zero_mod _).symm
  | some value =>
    have small : value.floor % modulus.toNat < UInt32.size :=
      (Nat.mod_lt _ positive).trans modulus.toNat_lt
    rw [reduceDouble, Magnitude.toNat_toWord, Magnitude.floor_truncate, Magnitude.floor_remainder,
      min_eq_left (Nat.le_sub_one_of_lt small)]
    rfl

theorem BinaryFormat.map_finite? (format : BinaryFormat) (bits : Nat) :
    (format.finite? bits).map (fun value => value.floor) =
      (format.magnitude? bits).map Scaled.floor := by
  rw [finite?, Option.map_pmap, Option.pmap_eq_map]

/-- The whole part of a floating-point number, by its exact value. -/
theorem BinaryFormat.floor_rational? (format : BinaryFormat) (bits : Nat) :
    (format.rational? bits).map (fun exact => ⌊|exact|⌋₊) =
      (format.magnitude? bits).map Scaled.floor := by
  have exact := congrArg (Option.map fun value => ⌊value⌋₊) (format.value_magnitude? bits)
  rw [Option.map_map, Option.map_map] at exact
  rw [funext Scaled.floor_eq]
  exact exact.symm

/-! ## Primitive numbers -/

namespace Primitive

/-- The exact value of a number, if it is finite. -/
def rational? : Primitive → Option ℚ
  | unsigned _ value => some value.toNat
  | signed _ value => some value.toInt
  | single value => BinaryFormat.single.rational? value.toBits.toNat
  | double value => BinaryFormat.double.rational? value.toBits.toNat

/-- The whole part of the absolute value, zero for a number that is not finite. -/
def whole (value : Primitive) : Nat :=
  (value.rational?.map fun exact => ⌊|exact|⌋₊).getD 0

@[simp] theorem whole_unsigned {width : Nat} (fits : width ≤ 128) (value : BitVec width) :
    (unsigned fits value).whole = value.toNat := by
  simp [whole, rational?]

@[simp] theorem whole_signed {width : Nat} (fits : width ≤ 128) (value : BitVec width) :
    (signed fits value).whole = value.toInt.natAbs := by
  have magnitude : |(value.toInt : ℚ)| = value.toInt.natAbs := by
    rw [Nat.cast_natAbs, Int.cast_abs]
  rw [whole, rational?, Option.map_some, magnitude, Nat.floor_natCast, Option.getD_some]

theorem toNat_coerce (value : Primitive) {modulus : UInt32} (positive : 0 < modulus) :
    (value.coerce modulus positive).toNat = value.whole % modulus.toNat := by
  cases value with
  | unsigned fits value =>
    rw [coerce, toNat_reduceUnsigned fits value positive, whole_unsigned]
  | signed fits value =>
    rw [coerce, toNat_reduceUnsigned fits value.abs positive, toNat_abs, whole_signed]
  | single value =>
    rw [coerce, toNat_reduceDouble _ positive, Option.map_map, whole, rational?,
      BinaryFormat.floor_rational?, ← BinaryFormat.map_finite?]
    rfl
  | double value =>
    rw [coerce, toNat_reduceDouble _ positive, whole, rational?, BinaryFormat.floor_rational?,
      ← BinaryFormat.map_finite?]

/-- For an assembler, a number has the same magnitude. -/
theorem magnitude_operand (value : Primitive) : value.operand.magnitude = value.whole := by
  cases value with
  | unsigned _ value => simp [operand, Operand.magnitude]
  | signed _ value => simp [operand, Operand.magnitude]
  | single value =>
    rw [operand, Operand.magnitude, whole, rational?, BinaryFormat.floor_rational?]
  | double value =>
    rw [operand, Operand.magnitude, whole, rational?, BinaryFormat.floor_rational?]

theorem toNat_coerce8 (value : Primitive) : value.coerce8.toNat = value.whole % 256 := by
  rw [coerce8, UInt32.toNat_toUInt8, toNat_coerce]
  exact Nat.mod_mod _ _

theorem toNat_coerce16 (value : Primitive) : value.coerce16.toNat = value.whole % 65536 := by
  rw [coerce16, UInt32.toNat_toUInt16, toNat_coerce]
  exact Nat.mod_mod _ _

/-- Casts and remainders give the whole part of the absolute value modulo the width, which is also
what an assembler makes of the number.  So a byte is what is left of the word, and numbers of any
two types are coerced alike if they are equal or one is the other with its sign turned. -/
theorem coerced_magnitude (value : Primitive) :
    value.coerce8.toNat = value.whole % 256 ∧ value.coerce16.toNat = value.whole % 65536 ∧
    value.coerce8.toNat = value.coerce16.toNat % 256 ∧
    (∀ other : Primitive, other.rational?.map abs = value.rational?.map abs →
      other.coerce8 = value.coerce8 ∧ other.coerce16 = value.coerce16) ∧
    value.operand.byte = value.coerce8 ∧ value.operand.word = value.coerce16 := by
  refine ⟨value.toNat_coerce8, value.toNat_coerce16, ?_, fun other same => ?_, ?_, ?_⟩
  · rw [toNat_coerce8, toNat_coerce16, Nat.mod_mod_of_dvd _ (by decide)]
  · have whole : other.whole = value.whole := by
      have floors := congrArg (Option.map fun exact => ⌊exact⌋₊) same
      rw [Option.map_map, Option.map_map] at floors
      exact congrArg (Option.getD · 0) floors
    rw [← UInt8.toNat_inj, ← UInt16.toNat_inj, toNat_coerce8, toNat_coerce8, toNat_coerce16,
      toNat_coerce16, whole]
    exact ⟨rfl, rfl⟩
  · rw [← UInt8.toNat_inj, Operand.toNat_byte, magnitude_operand, toNat_coerce8]
  · rw [← UInt16.toNat_inj, Operand.toNat_word, magnitude_operand, toNat_coerce16]

/-- The least integer of a byte, and the same number without its sign as a float. -/
theorem coerced_leastInteger :
    let least := signed (by decide) (BitVec.intMin 8)
    let float := single (Float32.ofBits 0x43000000)
    float.rational?.map abs = least.rational?.map abs ∧
      float.coerce8 = least.coerce8 ∧ float.coerce16 = least.coerce16 := by
  intro least float
  have same : float.rational?.map abs = least.rational?.map abs := by
    have bits : (Float32.ofBits 0x43000000).toBits.toNat = 0x43000000 := by rfl
    have floatValue : float.rational? = some 128 := by
      simp only [float, rational?, bits]
      norm_num [BinaryFormat.rational?, BinaryFormat.single, BinaryFormat.bias]
    have leastValue : least.rational? = some (-128) := by
      have value : (BitVec.intMin 8).toInt = -128 := by decide
      simp [least, rational?, value]
    rw [floatValue, leastValue]
    norm_num
  exact ⟨same, (coerced_magnitude least).2.2.2.1 float same⟩

end Primitive

end Sequencer
