import Sequencer.Bytecode
import Sequencer.Script.Printer

/-!
# Disassembly

A buffer decoded from front to back.  Byte order is followed, not control flow,
so every byte belongs to exactly one line.

* `Line` — an instruction and where it starts, with its script statement.
* `Bytecode.disassemble` — all lines of a buffer.  A last operand that the end
  cuts off reads as zeros.
* `Bytecode.listing` — one `offset: statement` per line.
-/

namespace Sequencer

/-- One decoded instruction and where it starts in the buffer. -/
structure Line where
  offset : Nat
  instruction : Instruction
deriving Repr, DecidableEq, Inhabited

namespace Line

def size (line : Line) : Nat :=
  line.instruction.size

/-- The script statement that compiles to the line.  A bare note is written as a raw byte. -/
def statement (line : Line) : String :=
  let name := (line.instruction.opcode?.map Opcode.mnemonic).getD Script.dataMnemonic
  Script.callText name (line.instruction.operand?.map Text.decimal).toList

/-- The line of a listing: the offset with at least four digits, then the statement. -/
def text (line : Line) : String :=
  Text.padLeft '0' 4 (Text.decimal line.offset) ++ ": " ++ line.statement

end Line

namespace Bytecode

/-- The lines from an offset on, put after the lines already found (newest first). -/
def disassembleFrom (code : Bytecode) (offset : Nat) (before : List Line) : List Line :=
  if offset < code.size then
    let instruction := code.decode offset
    disassembleFrom code (offset + instruction.size) (⟨offset, instruction⟩ :: before)
  else
    before.reverse
termination_by code.size - offset
decreasing_by
  have := Instruction.size_pos (code.decode offset)
  omega

def disassemble (code : Bytecode) : List Line :=
  code.disassembleFrom 0 []

def listing (code : Bytecode) : String :=
  "\n".intercalate (code.disassemble.map Line.text)

theorem disassembleFrom_eq_append (code : Bytecode) (offset : Nat) (before : List Line) :
    code.disassembleFrom offset before = before.reverse ++ code.disassembleFrom offset [] := by
  rw [disassembleFrom.eq_def code offset before, disassembleFrom.eq_def code offset []]
  by_cases h : offset < code.size
  · simp only [if_pos h]
    rw [disassembleFrom_eq_append code _ (_ :: before), disassembleFrom_eq_append code _ [_]]
    simp
  · simp [if_neg h]
termination_by code.size - offset
decreasing_by
  all_goals
    have := Instruction.size_pos (code.decode offset)
    omega

end Bytecode

end Sequencer
