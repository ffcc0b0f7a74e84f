import Sequencer.Binary

/-!
# Operands

Whatever is given as an operand fits: no value is refused.

* `Operand.magnitude` — the absolute value with its fraction cut off.  NaN and
  the infinities count as zero.
* `Operand.byte`, `Operand.word` — the magnitude modulo the range of the width,
  so `-3` gives `3`, and `300` gives `44` as a byte.
-/

namespace Sequencer

inductive Operand where
  | integer (value : Int)
  | single (value : Float32)
  | double (value : Float)

namespace Operand

instance : Inhabited Operand := ⟨integer 0⟩

/-- The whole part of the absolute value, zero for a value that is not finite. -/
def magnitude : Operand → Nat
  | integer value => value.natAbs
  | single value => ((BinaryFormat.single.magnitude? value.toBits.toNat).map Scaled.floor).getD 0
  | double value => ((BinaryFormat.double.magnitude? value.toBits.toNat).map Scaled.floor).getD 0

def byte (operand : Operand) : UInt8 :=
  UInt8.ofNat operand.magnitude

def word (operand : Operand) : UInt16 :=
  UInt16.ofNat operand.magnitude

theorem toNat_byte (operand : Operand) : operand.byte.toNat = operand.magnitude % 256 := by
  simp [byte]

theorem toNat_word (operand : Operand) : operand.word.toNat = operand.magnitude % 65536 := by
  simp [word]

end Operand

end Sequencer
