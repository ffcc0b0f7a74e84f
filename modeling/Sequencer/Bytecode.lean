import Sequencer.Instruction

/-!
# Bytecode

A buffer of assembled programs, read at any offset.  Several tracks can read one
buffer, each from a base of its own.

* `Bytecode.byteAt` — one byte.  The buffer goes on with zeros past its end, and
  a zero is a `nop`.
* `Bytecode.wordAt` — two bytes, the low one first.
* `Bytecode.decode` — the instruction that starts at an offset.
-/

namespace Sequencer

abbrev Bytecode := Array UInt8

def wordOfBytes (low high : UInt8) : UInt16 :=
  UInt16.ofNat (low.toNat + 256 * high.toNat)

/-- The bytes of a word, the low one first. -/
def bytesOfWord (word : UInt16) : List UInt8 :=
  [UInt8.ofNat (word.toNat % 256), UInt8.ofNat (word.toNat / 256)]

theorem wordOfBytes_bytesOfWord (word : UInt16) :
    wordOfBytes (UInt8.ofNat (word.toNat % 256)) (UInt8.ofNat (word.toNat / 256)) = word := by
  have bound := word.toNat_lt
  apply UInt16.toNat_inj.mp
  simp only [wordOfBytes, UInt16.toNat_ofNat', UInt8.toNat_ofNat']
  omega

namespace Bytecode

/-- The byte at an offset, zero past the end. -/
def byteAt (code : Bytecode) (offset : Nat) : UInt8 :=
  code[offset]?.getD 0

/-- The word at an offset, its low byte first. -/
def wordAt (code : Bytecode) (offset : Nat) : UInt16 :=
  wordOfBytes (code.byteAt offset) (code.byteAt (offset + 1))

def decode (code : Bytecode) (offset : Nat) : Instruction :=
  match Opcode.ofByte? (code.byteAt offset) with
  | some opcode => .ofOpcode opcode (code.byteAt (offset + 1)) (code.wordAt (offset + 1))
  | none => .note (code.byteAt offset)

theorem byteAt_of_size_le {code : Bytecode} {offset : Nat} (h : code.size ≤ offset) :
    code.byteAt offset = 0 := by
  simp [byteAt, Array.getElem?_eq_none h]

end Bytecode

end Sequencer
