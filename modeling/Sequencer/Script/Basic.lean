/-!
# Scripts

The statements of the script language, each with the place it was read from.

    intro:              // a label, bound to the current offset
      instrument(2)
      play(60); wait(8)
      jump(intro)
-/

namespace Sequencer.Script

/-- A stretch of a source text, from its first byte to just behind its last one. -/
structure Span where
  start : Nat
  stop : Nat
deriving Repr, DecidableEq, Inhabited

inductive Value where
  | number (value : Int)
  /-- Stands for the offset of the label's definition. -/
  | label (name : String)
deriving Repr, DecidableEq, Inhabited

structure Argument where
  value : Value
  span : Span
deriving Repr, DecidableEq, Inhabited

structure Call where
  name : String
  arguments : List Argument
  span : Span
deriving Repr, DecidableEq, Inhabited

/-- The call that writes its arguments as raw bytes.  It stands for no opcode. -/
def dataMnemonic : String := "db"

inductive Statement where
  /-- Defines a name for the offset of whatever comes next. -/
  | label (name : String) (span : Span)
  | call (made : Call)
deriving Repr, DecidableEq, Inhabited

def Statement.call? : Statement → Option Call
  | .label _ _ => none
  | .call made => some made

end Sequencer.Script
