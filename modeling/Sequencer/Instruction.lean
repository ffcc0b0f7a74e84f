import Sequencer.Opcode

/-!
# Decoded instructions

What a track executes: an opcode together with the value of its operand, or a
bare note.

* `Instruction.ofOpcode` — puts an opcode and its operand together.  `reset` has
  no rule of its own and becomes the note of its byte.
* `Instruction.opcode?`, `Instruction.operand?` — take an instruction apart again.
-/

namespace Sequencer

inductive Instruction where
  | nop
  | halt
  | jump (when : Condition) (target : UInt16)
  | markSection
  | repeatSection (when : Condition)
  | syscall (code : UInt16)
  | set (value : UInt8)
  | add (value : UInt8)
  | sub (value : UInt8)
  | compare (relation : Comparison) (value : UInt8)
  | ticks (rate : UInt8)
  | ticks16 (rate : UInt16)
  | wait (phases : UInt8)
  | wait16 (phases : UInt16)
  | instrument (index : UInt8)
  | instrumentSet
  | play (pitch : UInt8)
  | playSet
  /-- A byte without a rule of its own, played as it is. -/
  | note (pitch : UInt8)
deriving Repr, DecidableEq, Inhabited

namespace Instruction

/-- The instruction of an opcode whose operand reads `narrow` as a byte and `wide` as a word. -/
def ofOpcode (opcode : Opcode) (narrow : UInt8) (wide : UInt16) : Instruction :=
  match opcode with
  | .nop => nop
  | .halt => halt
  | .jump condition => jump condition wide
  | .markSection => markSection
  | .repeatSection condition => repeatSection condition
  | .syscall => syscall wide
  | .reset => note Opcode.reset.byte
  | .set => set narrow
  | .add => add narrow
  | .sub => sub narrow
  | .compare relation => compare relation narrow
  | .ticks => ticks narrow
  | .ticks16 => ticks16 wide
  | .wait => wait narrow
  | .wait16 => wait16 wide
  | .instrument => instrument narrow
  | .instrumentSet => instrumentSet
  | .play => play narrow
  | .playSet => playSet

/-- The opcode an instruction comes from.  Bare notes have none. -/
def opcode? : Instruction → Option Opcode
  | nop => some .nop
  | halt => some .halt
  | jump condition _ => some (.jump condition)
  | markSection => some .markSection
  | repeatSection condition => some (.repeatSection condition)
  | syscall _ => some .syscall
  | set _ => some .set
  | add _ => some .add
  | sub _ => some .sub
  | compare relation _ => some (.compare relation)
  | ticks _ => some .ticks
  | ticks16 _ => some .ticks16
  | wait _ => some .wait
  | wait16 _ => some .wait16
  | instrument _ => some .instrument
  | instrumentSet => some .instrumentSet
  | play _ => some .play
  | playSet => some .playSet
  | note _ => none

/-- The value an instruction carries.  A bare note carries its pitch. -/
def operand? : Instruction → Option Nat
  | jump _ value | syscall value | ticks16 value | wait16 value => some value.toNat
  | set value | add value | sub value | compare _ value | ticks value | wait value
  | instrument value | play value | note value => some value.toNat
  | nop | halt | markSection | repeatSection _ | instrumentSet | playSet => none

def size (instruction : Instruction) : Nat :=
  match instruction.opcode? with
  | some opcode => opcode.size
  | none => 1

/-- Whether a phase is over once the instruction has been executed. -/
def endsTick : Instruction → Bool
  | nop | syscall _ | ticks _ | ticks16 _ | wait _ | wait16 _ | instrument _ | instrumentSet
  | play _ | playSet | note _ => true
  | halt | jump _ _ | markSection | repeatSection _ | set _ | add _ | sub _ | compare _ _ => false

theorem size_pos (instruction : Instruction) : 0 < instruction.size := by
  unfold size
  split
  · exact Opcode.size_pos _
  · exact Nat.one_pos

theorem opcode?_ofOpcode {opcode : Opcode} (h : opcode ≠ .reset) (narrow : UInt8) (wide : UInt16) :
    (ofOpcode opcode narrow wide).opcode? = some opcode := by
  cases opcode with
  | reset => exact absurd rfl h
  | _ => rfl

theorem size_ofOpcode (opcode : Opcode) (narrow : UInt8) (wide : UInt16) :
    (ofOpcode opcode narrow wide).size = opcode.size := by
  cases opcode <;> rfl

end Instruction

end Sequencer
