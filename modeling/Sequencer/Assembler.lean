import Sequencer.Bytecode
import Sequencer.Operand

/-!
# Assembler

Writes bytecode one directive at a time.

* `Directive` — an opcode with its operand, or raw bytes.  `Directive.encode`
  gives its bytes and `Directive.size` their number, which no operand changes.
* `Assembler` — a buffer that grows with each directive.  Its size is the offset
  of whatever is written next.
-/

namespace Sequencer

/-- The bytes of an opcode with its operand.  An opcode without operand ignores it. -/
def Opcode.encode (opcode : Opcode) (operand : Operand) : List UInt8 :=
  match opcode.width with
  | .none => [opcode.byte]
  | .byte => [opcode.byte, operand.byte]
  | .word => opcode.byte :: bytesOfWord operand.word

inductive Directive where
  | emit (opcode : Opcode) (operand : Operand)
  /-- Raw bytes, each operand as one. -/
  | data (operands : List Operand)

namespace Directive

def encode : Directive → List UInt8
  | emit opcode operand => opcode.encode operand
  | data operands => operands.map Operand.byte

def size : Directive → Nat
  | emit opcode _ => opcode.size
  | data operands => operands.length

theorem length_encode (directive : Directive) : directive.encode.length = directive.size := by
  cases directive with
  | emit opcode operand =>
    simp only [encode, size, Opcode.encode, Opcode.size]
    cases opcode.width <;> simp [Width.size, bytesOfWord]
  | data operands => simp [encode, size]

end Directive

structure Assembler where
  bytes : Bytecode := #[]
deriving Repr, DecidableEq, Inhabited

namespace Assembler

def size (assembler : Assembler) : Nat :=
  assembler.bytes.size

def isEmpty (assembler : Assembler) : Bool :=
  assembler.bytes.isEmpty

def write (assembler : Assembler) (directive : Directive) : Assembler :=
  ⟨assembler.bytes.appendList directive.encode⟩

/-- Appends an opcode, followed by its operand if it takes one. -/
def emit (assembler : Assembler) (opcode : Opcode) (operand : Operand) : Assembler :=
  assembler.write (.emit opcode operand)

def data (assembler : Assembler) (operands : List Operand) : Assembler :=
  assembler.write (.data operands)

def writeAll (assembler : Assembler) (directives : List Directive) : Assembler :=
  directives.foldl write assembler

def clear (_ : Assembler) : Assembler :=
  {}

@[simp] theorem toList_bytes_write (assembler : Assembler) (directive : Directive) :
    (assembler.write directive).bytes.toList = assembler.bytes.toList ++ directive.encode := by
  simp [write]

theorem toList_bytes_writeAll (assembler : Assembler) (directives : List Directive) :
    (assembler.writeAll directives).bytes.toList =
      assembler.bytes.toList ++ directives.flatMap Directive.encode := by
  induction directives generalizing assembler with
  | nil => simp [writeAll]
  | cons directive directives ih =>
    have step : assembler.writeAll (directive :: directives) =
        (assembler.write directive).writeAll directives := rfl
    simp [step, ih]

theorem size_write (assembler : Assembler) (directive : Directive) :
    (assembler.write directive).size = assembler.size + directive.size := by
  rw [size, ← Array.length_toList, toList_bytes_write, List.length_append,
    Directive.length_encode, Array.length_toList]
  rfl

end Assembler

end Sequencer
