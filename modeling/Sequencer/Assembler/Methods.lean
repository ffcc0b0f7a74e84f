import Sequencer.Assembler

/-!
# Methods of the assembler

The assembler by mnemonics: one method for each opcode, which takes an operand just if the
opcode does, and one for raw bytes.

* `Assembler.plain` — writes an opcode that takes no operand.
* `Assembler.methods` — the methods under their names.
* `Assembler.invoke?` — calls a method by its name.  There is nothing to call for a name that
  no method has, or with a wrong number of operands.
-/

namespace Sequencer.Assembler

def plain (assembler : Assembler) (opcode : Opcode) : Assembler :=
  assembler.emit opcode (.integer 0)

def nop (assembler : Assembler) : Assembler :=
  assembler.plain .nop

def halt (assembler : Assembler) : Assembler :=
  assembler.plain .halt

def jump (assembler : Assembler) (offset : Operand) : Assembler :=
  assembler.emit (.jump .always) offset

def ifJump (assembler : Assembler) (offset : Operand) : Assembler :=
  assembler.emit (.jump .ifSet) offset

def ifNotJump (assembler : Assembler) (offset : Operand) : Assembler :=
  assembler.emit (.jump .ifClear) offset

def markSection (assembler : Assembler) : Assembler :=
  assembler.plain .markSection

def repeatSection (assembler : Assembler) : Assembler :=
  assembler.plain (.repeatSection .always)

def ifRepeat (assembler : Assembler) : Assembler :=
  assembler.plain (.repeatSection .ifSet)

def ifNotRepeat (assembler : Assembler) : Assembler :=
  assembler.plain (.repeatSection .ifClear)

def syscall (assembler : Assembler) (code : Operand) : Assembler :=
  assembler.emit .syscall code

/-- There is a byte for `reset`, but tracks play it as a note. -/
def reset (assembler : Assembler) : Assembler :=
  assembler.plain .reset

def set (assembler : Assembler) (value : Operand) : Assembler :=
  assembler.emit .set value

def add (assembler : Assembler) (value : Operand) : Assembler :=
  assembler.emit .add value

def sub (assembler : Assembler) (value : Operand) : Assembler :=
  assembler.emit .sub value

def equal (assembler : Assembler) (value : Operand) : Assembler :=
  assembler.emit (.compare .equal) value

def less (assembler : Assembler) (value : Operand) : Assembler :=
  assembler.emit (.compare .less) value

def greater (assembler : Assembler) (value : Operand) : Assembler :=
  assembler.emit (.compare .greater) value

def atMost (assembler : Assembler) (value : Operand) : Assembler :=
  assembler.emit (.compare .atMost) value

def atLeast (assembler : Assembler) (value : Operand) : Assembler :=
  assembler.emit (.compare .atLeast) value

def ticks (assembler : Assembler) (rate : Operand) : Assembler :=
  assembler.emit .ticks rate

def ticks16 (assembler : Assembler) (rate : Operand) : Assembler :=
  assembler.emit .ticks16 rate

def wait (assembler : Assembler) (phases : Operand) : Assembler :=
  assembler.emit .wait phases

def wait16 (assembler : Assembler) (phases : Operand) : Assembler :=
  assembler.emit .wait16 phases

def instrument (assembler : Assembler) (index : Operand) : Assembler :=
  assembler.emit .instrument index

def instrumentSet (assembler : Assembler) : Assembler :=
  assembler.plain .instrumentSet

def play (assembler : Assembler) (pitch : Operand) : Assembler :=
  assembler.emit .play pitch

def playSet (assembler : Assembler) : Assembler :=
  assembler.plain .playSet

/-- A method that writes one instruction. -/
inductive Method where
  | plain (write : Assembler → Assembler)
  | operand (write : Assembler → Operand → Assembler)

/-- The methods that write an instruction, each under the name it is called by. -/
def methods : List (String × Method) :=
  [("nop", .plain nop), ("halt", .plain halt),
    ("jump", .operand jump), ("ifjump", .operand ifJump), ("ifnotjump", .operand ifNotJump),
    ("section", .plain markSection), ("repeat", .plain repeatSection),
    ("ifrepeat", .plain ifRepeat), ("ifnotrepeat", .plain ifNotRepeat),
    ("syscall", .operand syscall), ("reset", .plain reset),
    ("set", .operand set), ("add", .operand add), ("sub", .operand sub),
    ("equal", .operand equal), ("lt", .operand less), ("gt", .operand greater),
    ("ltequal", .operand atMost), ("gtequal", .operand atLeast),
    ("ticks", .operand ticks), ("ticks16", .operand ticks16),
    ("wait", .operand wait), ("wait16", .operand wait16),
    ("instrument", .operand instrument), ("instrumentset", .plain instrumentSet),
    ("play", .operand play), ("playset", .plain playSet)]

/-- The name of the method for raw bytes. -/
def dataMethod : String := "db"

/-- Calls the method with the given name, if it takes as many operands as there are. -/
def invoke? (assembler : Assembler) (name : String) (operands : List Operand) :
    Option Assembler :=
  if name = dataMethod then
    some (assembler.data operands)
  else
    match methods.lookup name, operands with
    | some (.plain write), [] => some (write assembler)
    | some (.operand write), [operand] => some (write assembler operand)
    | _, _ => none

/-! ## The methods are those of the mnemonics -/

/-- The method of an opcode. -/
def Method.ofOpcode (opcode : Opcode) : Method :=
  if opcode.width = .none then .plain (·.plain opcode) else .operand (·.emit opcode)

theorem lookup_methods_mnemonic (opcode : Opcode) :
    methods.lookup opcode.mnemonic = some (.ofOpcode opcode) := by
  cases opcode with
  | jump condition | repeatSection condition => cases condition <;> rfl
  | compare relation => cases relation <;> rfl
  | _ => rfl

end Sequencer.Assembler
