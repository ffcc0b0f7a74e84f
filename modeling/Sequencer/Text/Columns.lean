import Sequencer.Text.Blank
import Sequencer.Text.Wide
import Sequencer.Text.ZeroWidth

/-!
# Columns

How many terminal columns a character takes.

* `width` — the width of a character by itself.
* `columns` — the width where a character stands.  Blanks take one column, and a
  tab goes on to the next multiple of four.
-/

namespace Sequencer.Text

/-- The columns of a character that is no blank.  Joining comes before being wide: a wide
mark takes no column.  The Khmer sign for "and so on" is as wide as the three letters it is
written with. -/
def width (c : Char) : Nat :=
  if c.toNat == 0x17D8 then 3
  else if isZeroWidth c then 0
  else if isWide c then 2
  else 1

/-- The columns a character takes as the `index`th of its line. -/
def columns (c : Char) (index : Nat) : Nat :=
  if c = '\t' then 4 - index % 4
  else if isBlank c then 1
  else width c

end Sequencer.Text
