/-!
# Binary floating-point formats

The exact magnitude of a floating-point value, read off its bits.

* `BinaryFormat` — how many bits the exponent and the fraction take; `single` and
  `double` are the two formats that operands come in.
* `BinaryFormat.magnitude?` — the absolute value as `significand * 2 ^ exponent`,
  or nothing for infinities and NaN.
* `Scaled.floor` — the whole part of such a value, with no rounding on the way.
-/

namespace Sequencer

structure Scaled where
  significand : Nat
  exponent : Int
deriving Repr, DecidableEq, Inhabited

/-- The greatest natural number that is not above the value. -/
def Scaled.floor (value : Scaled) : Nat :=
  if value.exponent < 0 then
    value.significand >>> (-value.exponent).toNat
  else
    value.significand <<< value.exponent.toNat

/-- A format of sign, biased exponent and fraction, from the highest bit down. -/
structure BinaryFormat where
  exponentBits : Nat
  fractionBits : Nat
deriving Repr, DecidableEq, Inhabited

namespace BinaryFormat

def single : BinaryFormat := ⟨8, 23⟩

def double : BinaryFormat := ⟨11, 52⟩

/-- The exponent of the last fraction bit of a value whose biased exponent is one. -/
def leastExponent (format : BinaryFormat) : Int :=
  2 - (1 <<< (format.exponentBits - 1) : Nat) - format.fractionBits

/-- The absolute value of the number with the given bits.  The highest biased exponent is
kept for infinities and NaN; the lowest has no implicit leading bit. -/
def magnitude? (format : BinaryFormat) (bits : Nat) : Option Scaled :=
  let fraction := bits % (1 <<< format.fractionBits)
  let biased := (bits >>> format.fractionBits) % (1 <<< format.exponentBits)
  if biased = (1 <<< format.exponentBits) - 1 then
    none
  else if biased = 0 then
    some ⟨fraction, format.leastExponent⟩
  else
    some ⟨(1 <<< format.fractionBits) + fraction, format.leastExponent + (biased - 1 : Nat)⟩

example : single.magnitude? 0x406CCCCD = some ⟨15518925, -22⟩ := by decide
example : (double.magnitude? 0xC0703E6666666666).map Scaled.floor = some 259 := by decide
example : double.magnitude? 0x7FF0000000000000 = none := by decide
example : double.magnitude? 1 = some ⟨1, -1074⟩ := by decide

end BinaryFormat

end Sequencer
