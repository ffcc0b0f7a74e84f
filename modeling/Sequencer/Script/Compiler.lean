import Sequencer.Assembler
import Sequencer.Script.Layout
import Sequencer.Text.Numeral

/-!
# Compiling scripts

Every call becomes one directive of the assembler.  A final `halt` is always
appended, so a script that runs off its end stops.

* `Fault` — what can be wrong with a statement: an unknown name, a wrong number
  of arguments, or a label that is undefined, defined again or out of place.
* `Call.directive` — the directive of a call, or its one fault.
* `Script.compile` — the bytes of a script, or all its faults: repeated labels
  first, then the calls in order.

A label's offset is written like any other operand, so it wraps around at the
width of a word.
-/

namespace Sequencer.Script

/-- What is wrong with a statement. -/
inductive Fault where
  | unknownMnemonic (name : String) (span : Span)
  | arity (name : String) (expected got : Nat) (span : Span)
  | undefinedLabel (name : String) (span : Span)
  | duplicateLabel (name : String) (span : Span)
  /-- A label stands where a byte is needed. -/
  | labelNotAllowed (name : String) (span : Span)
deriving Repr, DecidableEq, Inhabited

namespace Fault

def span : Fault → Span
  | unknownMnemonic _ span | arity _ _ _ span | undefinedLabel _ span | duplicateLabel _ span
  | labelNotAllowed _ span => span

def message : Fault → String
  | unknownMnemonic name _ => "Unknown instruction `" ++ name ++ "`"
  | arity name expected got _ =>
    "`" ++ name ++ "` takes " ++ Text.decimal expected ++ " argument(s), got " ++
      Text.decimal got
  | undefinedLabel name _ => "Label `" ++ name ++ "` is never defined"
  | duplicateLabel name _ => "Label `" ++ name ++ "` is defined more than once"
  | labelNotAllowed name _ =>
    "Label `" ++ name ++ "` used as an 8 bit value, only 16 bit operands take labels"

/-- A few words to stand beside the place. -/
def reason : Fault → String
  | unknownMnemonic _ _ => "not an instruction"
  | arity _ _ _ _ => "wrong number of arguments"
  | undefinedLabel _ _ => "no label with this name"
  | duplicateLabel _ _ => "defined again here"
  | labelNotAllowed _ _ => "expected a number"

end Fault

/-- The operand an argument gives for a width.  Labels fit into words only. -/
def Argument.operand (labels : Labels) (width : Width) (argument : Argument) :
    Except Fault Operand :=
  match argument.value with
  | .number value => .ok (.integer value)
  | .label name =>
    if width = .word then
      match labels.lookup name with
      | some offset => .ok (.integer offset)
      | none => .error (.undefinedLabel name argument.span)
    else
      .error (.labelNotAllowed name argument.span)

/-- The directive a call stands for, given the labels of its script. -/
def Call.directive (labels : Labels) (call : Call) : Except Fault Directive :=
  if call.name = dataMnemonic then
    return .data (← call.arguments.mapM (·.operand labels .byte))
  else
    match Opcode.ofMnemonic? call.name with
    | none => .error (.unknownMnemonic call.name call.span)
    | some opcode =>
      if call.arguments.length = opcode.arity then
        match call.arguments.head? with
        | some argument => return .emit opcode (← argument.operand labels opcode.width)
        | none => return .emit opcode (.integer 0)
      else
        .error (.arity call.name opcode.arity call.arguments.length call.span)

/-- The fault of a directive that could not be made. -/
def faultOf? : Except Fault Directive → Option Fault
  | .error fault => some fault
  | .ok _ => none

def directives (script : List Statement) : List (Except Fault Directive) :=
  let labels := (Layout.ofScript script).labels
  (script.filterMap Statement.call?).map (·.directive labels)

def faults (script : List Statement) : List Fault :=
  (Layout.ofScript script).repeated.reverse.map (fun (name, span) => .duplicateLabel name span) ++
    (directives script).filterMap faultOf?

/-- The bytecode of a script, or all that is wrong with it. -/
def compile (script : List Statement) : Except (List Fault) Bytecode :=
  match faults script with
  | [] =>
    let calls := (directives script).filterMap Except.toOption
    .ok ((Assembler.writeAll {} calls).emit .halt (.integer 0)).bytes
  | found => .error found

end Sequencer.Script
