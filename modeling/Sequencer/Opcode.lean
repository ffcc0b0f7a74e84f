/-!
# Opcodes

The 27 opcodes of the sequencer, each with its byte, its mnemonic and the width
of the operand that follows it.

* `Opcode.all` — every opcode, in the order of the instruction table.
* `Opcode.ofByte?`, `Opcode.ofMnemonic?` — look-ups in that table.  Bytes and
  mnemonics are pairwise distinct, so both undo their counterpart.

The jumps and the repeats come in three kinds each and the comparisons in five;
`Condition` and `Comparison` name what tells the kinds apart, so that the track
has one rule per family.
-/

namespace Sequencer

/-- When a jump or a repeat is taken, judged by the result of the last comparison. -/
inductive Condition where
  | always
  | ifSet
  | ifClear
deriving Repr, DecidableEq, Inhabited

def Condition.holds (flag : Bool) : Condition → Bool
  | always => true
  | ifSet => flag
  | ifClear => !flag

/-- How a comparison relates the register, on the left, to its operand. -/
inductive Comparison where
  | equal
  | less
  | greater
  | atMost
  | atLeast
deriving Repr, DecidableEq, Inhabited

def Comparison.holds (register operand : Int) : Comparison → Bool
  | equal => register == operand
  | less => register < operand
  | greater => register > operand
  | atMost => register ≤ operand
  | atLeast => register ≥ operand

inductive Width where
  | none
  | byte
  | word
deriving Repr, DecidableEq, Inhabited

def Width.size : Width → Nat
  | none => 0
  | byte => 1
  | word => 2

/-- What an assembled program is made of. -/
inductive Opcode where
  /-- Ends the phase without doing anything. -/
  | nop
  | halt
  | jump (when : Condition)
  | markSection
  | repeatSection (when : Condition)
  /-- Asks the host for an external call with a 16 bit code. -/
  | syscall
  /-- Assembled like any other opcode, but played as a note by the track. -/
  | reset
  | set
  | add
  | sub
  | compare (relation : Comparison)
  /-- Sets the number of frames to wait between phases, as a byte. -/
  | ticks
  /-- Sets the number of frames to wait between phases, as a word. -/
  | ticks16
  /-- Skips a number of phases, given as a byte. -/
  | wait
  /-- Skips a number of phases, given as a word. -/
  | wait16
  | instrument
  /-- Selects the instrument held in the register. -/
  | instrumentSet
  | play
  /-- Plays the note held in the register. -/
  | playSet
deriving Repr, DecidableEq, Inhabited

namespace Opcode

def all : List Opcode :=
  [nop, halt, jump .always, jump .ifSet, jump .ifClear, markSection,
    repeatSection .always, repeatSection .ifSet, repeatSection .ifClear,
    syscall, reset, set, add, sub,
    compare .equal, compare .less, compare .greater, compare .atMost, compare .atLeast,
    ticks, ticks16, wait, wait16, instrument, instrumentSet, play, playSet]

/-- The byte that stands for an opcode in a program. -/
def byte : Opcode → UInt8
  | nop => 0x00
  | halt => 0xFF
  | jump .always => 0xFE
  | jump .ifSet => 0xFD
  | jump .ifClear => 0xFC
  | markSection => 0xFB
  | repeatSection .always => 0xFA
  | repeatSection .ifSet => 0xF9
  | repeatSection .ifClear => 0xF8
  | syscall => 0xF7
  | reset => 0xF6
  | set => 0xF5
  | add => 0xF4
  | sub => 0xF3
  | compare .equal => 0xF2
  | compare .less => 0xF1
  | compare .greater => 0xF0
  | compare .atMost => 0xEF
  | compare .atLeast => 0xEE
  | ticks => 0xED
  | ticks16 => 0xEC
  | wait => 0xEB
  | wait16 => 0xEA
  | instrument => 0xE9
  | instrumentSet => 0xE8
  | play => 0xE7
  | playSet => 0xE6

def mnemonic : Opcode → String
  | nop => "nop"
  | halt => "halt"
  | jump .always => "jump"
  | jump .ifSet => "ifjump"
  | jump .ifClear => "ifnotjump"
  | markSection => "section"
  | repeatSection .always => "repeat"
  | repeatSection .ifSet => "ifrepeat"
  | repeatSection .ifClear => "ifnotrepeat"
  | syscall => "syscall"
  | reset => "reset"
  | set => "set"
  | add => "add"
  | sub => "sub"
  | compare .equal => "equal"
  | compare .less => "lt"
  | compare .greater => "gt"
  | compare .atMost => "ltequal"
  | compare .atLeast => "gtequal"
  | ticks => "ticks"
  | ticks16 => "ticks16"
  | wait => "wait"
  | wait16 => "wait16"
  | instrument => "instrument"
  | instrumentSet => "instrumentset"
  | play => "play"
  | playSet => "playset"

def width : Opcode → Width
  | jump _ | syscall | ticks16 | wait16 => .word
  | set | add | sub | compare _ | ticks | wait | instrument | play => .byte
  | nop | halt | markSection | repeatSection _ | reset | instrumentSet | playSet => .none

/-- The number of bytes of an encoded opcode, its operand included. -/
def size (opcode : Opcode) : Nat :=
  1 + opcode.width.size

/-- The number of arguments a script gives to an opcode. -/
def arity (opcode : Opcode) : Nat :=
  if opcode.width = .none then 0 else 1

/-- The opcode a byte stands for.  Every other byte is a bare note. -/
def ofByte? (b : UInt8) : Option Opcode :=
  all.find? (·.byte == b)

def ofMnemonic? (name : String) : Option Opcode :=
  all.find? (·.mnemonic == name)

/-! ## The table is complete and unambiguous -/

theorem mem_all (opcode : Opcode) : opcode ∈ all := by
  cases opcode with
  | jump condition | repeatSection condition => cases condition <;> decide
  | compare relation => cases relation <;> decide
  | _ => decide

@[simp] theorem ofByte?_byte (opcode : Opcode) : ofByte? opcode.byte = some opcode := by
  cases opcode with
  | jump condition | repeatSection condition => cases condition <;> decide
  | compare relation => cases relation <;> decide
  | _ => decide

theorem byte_of_ofByte?_eq_some {b : UInt8} {opcode : Opcode} (h : ofByte? b = some opcode) :
    opcode.byte = b := by
  simpa using List.find?_some h

@[simp] theorem ofMnemonic?_mnemonic (opcode : Opcode) :
    ofMnemonic? opcode.mnemonic = some opcode := by
  cases opcode with
  | jump condition | repeatSection condition => cases condition <;> decide
  | compare relation => cases relation <;> decide
  | _ => decide

theorem mnemonic_of_ofMnemonic?_eq_some {name : String} {opcode : Opcode}
    (h : ofMnemonic? name = some opcode) : opcode.mnemonic = name := by
  simpa using List.find?_some h

theorem mnemonic_ne_of_ofMnemonic?_eq_none {name : String} (unclaimed : ofMnemonic? name = none)
    (opcode : Opcode) : opcode.mnemonic ≠ name := by
  rintro rfl
  rw [ofMnemonic?_mnemonic] at unclaimed
  cases unclaimed

theorem mnemonic_injective {first second : Opcode} (same : first.mnemonic = second.mnemonic) :
    first = second := by
  simpa using congrArg ofMnemonic? same

theorem size_pos (opcode : Opcode) : 0 < opcode.size := by
  unfold size; omega

end Opcode

end Sequencer
