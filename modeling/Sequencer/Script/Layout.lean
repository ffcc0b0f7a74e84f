import Sequencer.Opcode
import Sequencer.Script.Basic

/-!
# The layout of a script

Where the statements of a script will stand, found before any of them is
assembled.  The size of a call depends on its name and the number of its
arguments only, so a label may be used ahead of its definition.

* `Call.size` — the bytes a call takes.  A call that names no instruction takes
  none; the compiler reports it elsewhere.
* `Layout` — the offset reached, the labels placed so far and the definitions
  that repeat an earlier one.
-/

namespace Sequencer.Script

def Call.size (call : Call) : Nat :=
  if call.name = dataMnemonic then
    call.arguments.length
  else
    ((Opcode.ofMnemonic? call.name).map Opcode.size).getD 0

/-- Offsets of labels, counted from the start of the script. -/
abbrev Labels := List (String × Nat)

/-- How far a script has been laid out. -/
structure Layout where
  offset : Nat := 0
  /-- The labels placed so far, the newest first. -/
  labels : Labels := []
  /-- The definitions of names defined before, the newest first. -/
  repeated : List (String × Span) := []
deriving Repr, DecidableEq, Inhabited

namespace Layout

def place (layout : Layout) : Statement → Layout
  | .label name span =>
    { layout with
      labels := (name, layout.offset) :: layout.labels
      repeated :=
        if (layout.labels.lookup name).isSome then (name, span) :: layout.repeated
        else layout.repeated }
  | .call made => { layout with offset := layout.offset + made.size }

def ofScript (script : List Statement) : Layout :=
  script.foldl place {}

theorem ofScript_append_singleton (script : List Statement) (statement : Statement) :
    ofScript (script ++ [statement]) = (ofScript script).place statement := by
  simp [ofScript]

end Layout

end Sequencer.Script
