import Sequencer.Operand

/-!
# Numbers of the machine as operands

What an operand is given as: an integer of some width, with or without a sign, or a
floating-point number.  It is coerced by casts and remainders, none of which rounds.

* `Magnitude` — the absolute value of a finite number of a format.  What stands in one
  can be represented, so a wider format and a remainder are exact.
* `Primitive` — a number of any type that is accepted.
* `Primitive.coerce` — its magnitude modulo a word.  `Primitive.coerce8` and
  `Primitive.coerce16` take it modulo the range of an operand.
* `Primitive.operand` — the operand it is for an assembler.
-/

namespace Sequencer

/-- The absolute value of a finite number of a format. -/
structure Magnitude (format : BinaryFormat) extends Scaled where
  narrow : significand < 1 <<< (format.fractionBits + 1)
  fine : format.leastExponent ≤ exponent

namespace BinaryFormat

theorem magnitude?_representable {format : BinaryFormat} {bits : Nat} {value : Scaled}
    (finite : format.magnitude? bits = some value) :
    value.significand < 1 <<< (format.fractionBits + 1) ∧
      format.leastExponent ≤ value.exponent := by
  have fraction : bits % (1 <<< format.fractionBits) < 1 <<< format.fractionBits := by
    rw [Nat.one_shiftLeft]
    exact Nat.mod_lt _ (Nat.two_pow_pos _)
  rw [Nat.shiftLeft_succ]
  simp only [magnitude?] at finite
  split at finite
  next => cases finite
  next =>
    split at finite
    next =>
      obtain rfl := Option.some.inj finite
      exact ⟨by simp only; omega, Int.le_refl _⟩
    next =>
      obtain rfl := Option.some.inj finite
      exact ⟨by simp only; omega, by simp only; omega⟩

/-- The absolute value of the number with the given bits, nothing for infinities and NaN. -/
def finite? (format : BinaryFormat) (bits : Nat) : Option (Magnitude format) :=
  (format.magnitude? bits).pmap
    (fun value representable => ⟨value, representable.1, representable.2⟩)
    fun _ finite => magnitude?_representable finite

end BinaryFormat

namespace Magnitude

/-- The same number in the wider format. -/
def widen (value : Magnitude .single) : Magnitude .double :=
  ⟨value.toScaled, Nat.lt_trans value.narrow (by decide), Int.le_trans (by decide) value.fine⟩

/-- A natural number that has no more bits than a fraction. -/
def ofNat (n : Nat) (small : n < 1 <<< 53) : Magnitude .double :=
  ⟨⟨n, 0⟩, small, (by decide : BinaryFormat.double.leastExponent ≤ 0)⟩

/-- What is left after subtracting a whole number as often as it can be. -/
def remainder (value : Magnitude .double) (modulus : UInt32) (positive : 0 < modulus) :
    Magnitude .double :=
  if value.exponent < 0 then
    ⟨⟨value.significand % (modulus.toNat <<< (-value.exponent).toNat), value.exponent⟩,
      Nat.lt_of_le_of_lt (Nat.mod_le _ _) value.narrow, value.fine⟩
  else
    ofNat ((value.significand <<< value.exponent.toNat) % modulus.toNat)
      (Nat.lt_trans (Nat.mod_lt _ positive) (Nat.lt_trans modulus.toNat_lt (by decide)))

theorem floor_lt (value : Magnitude .double) (fraction : value.exponent < 0) :
    value.floor < 1 <<< 53 := by
  rw [Scaled.floor, if_pos fraction]
  exact Nat.lt_of_le_of_lt (Nat.shiftRight_le _ _) value.narrow

/-- The number without its fraction. -/
def truncate (value : Magnitude .double) : Magnitude .double :=
  if fraction : value.exponent < 0 then ofNat value.floor (value.floor_lt fraction) else value

/-- The cast to a word, which gives the greatest word for a number that is greater. -/
def toWord (value : Magnitude .double) : UInt32 :=
  UInt32.ofNat (min value.floor (UInt32.size - 1))

end Magnitude

/-- A number of a primitive type. -/
inductive Primitive where
  | unsigned {width : Nat} (fits : width ≤ 128) (value : BitVec width)
  | signed {width : Nat} (fits : width ≤ 128) (value : BitVec width)
  | single (value : Float32)
  | double (value : Float)

/-- An unsigned integer modulo a word, which is cast to the width of the integer. -/
def reduceUnsigned {width : Nat} (value : BitVec width) (modulus : UInt32) : UInt32 :=
  .ofBitVec (((value.setWidth 128) % (modulus.toBitVec.setWidth 128)).setWidth 32)

/-- A floating-point number without its sign and its fraction, modulo a word.  Numbers that are
not finite give zero. -/
def reduceDouble (value : Option (Magnitude .double)) (modulus : UInt32) (positive : 0 < modulus) :
    UInt32 :=
  match value with
  | none => 0
  | some value => (value.remainder modulus positive).truncate.toWord

namespace Primitive

def coerce (value : Primitive) (modulus : UInt32) (positive : 0 < modulus) : UInt32 :=
  match value with
  | unsigned _ value => reduceUnsigned value modulus
  -- the least integer has no counterpart of its type, but its bits are those of its magnitude
  | signed _ value => reduceUnsigned value.abs modulus
  | single value =>
    reduceDouble ((BinaryFormat.single.finite? value.toBits.toNat).map .widen) modulus positive
  | double value => reduceDouble (BinaryFormat.double.finite? value.toBits.toNat) modulus positive

def coerce8 (value : Primitive) : UInt8 :=
  (value.coerce 256 (by decide)).toUInt8

def coerce16 (value : Primitive) : UInt16 :=
  (value.coerce 65536 (by decide)).toUInt16

def operand : Primitive → Operand
  | unsigned _ value => .integer value.toNat
  | signed _ value => .integer value.toInt
  | single value => .single value
  | double value => .double value

example : (signed (by decide) (-128 : BitVec 8)).coerce8 = 128 := by rfl
example : (unsigned (by decide) (-1 : BitVec 128)).coerce16 = 65535 := by rfl
example : (double (Float.ofBits 0xC0703E6666666666)).coerce8 = 3 := by rfl

end Primitive

end Sequencer
