import Sequencer.Text.Blank

/-!
# Lines of a text

A text cut behind every line end.  Nothing is lost: the lines one after the
other are the text again.

* `isLineEnd` — the seven characters that end a line.  A carriage return and the
  line feed behind it are one line end.
* `TextLine` — a line with its terminator, its number and where it starts.
* `lines` — all lines of a text; an empty text is one empty line.
-/

namespace Sequencer.Text

def isLineEnd (c : Char) : Bool :=
  let n := c.toNat
  (0x0A ≤ n && n ≤ 0x0D) || n == 0x85 || n == 0x2028 || n == 0x2029

/-- The line read so far and the lines before it, all reversed, as one list in order. -/
def closeLines (line : List Char) (before : List (List Char)) : List (List Char) :=
  if line.isEmpty && !before.isEmpty then before.reverse else (line.reverse :: before).reverse

/-- Cuts a text into lines, given the line read so far and the lines before it, reversed. -/
def cutLines : List Char → List Char → List (List Char) → List (List Char)
  | [], line, before => closeLines line before
  | '\r' :: '\n' :: rest, line, before =>
    cutLines rest [] (('\n' :: '\r' :: line).reverse :: before)
  | c :: rest, line, before =>
    if isLineEnd c then cutLines rest [] ((c :: line).reverse :: before)
    else cutLines rest (c :: line) before

structure TextLine where
  /-- The number of lines before it. -/
  number : Nat
  /-- The number of characters before it. -/
  start : Nat
  /-- Its characters, the terminator included. -/
  text : List Char
deriving Repr, DecidableEq, Inhabited

namespace TextLine

/-- The offset behind the line. -/
def stop (line : TextLine) : Nat :=
  line.start + line.text.length

/-- The line without the blanks at its end. -/
def trimmed (line : TextLine) : List Char :=
  (line.text.reverse.dropWhile isBlank).reverse

end TextLine

/-- Numbers lines and finds where they start, putting them in front of those placed before. -/
def placeLines : List (List Char) → Nat → Nat → List TextLine → List TextLine
  | [], _, _, before => before.reverse
  | text :: rest, number, start, before =>
    placeLines rest (number + 1) (start + text.length) (⟨number, start, text⟩ :: before)

def lines (text : List Char) : List TextLine :=
  placeLines (cutLines text [] []) 0 0 []

/-- The last line that starts at an offset or before it. -/
def lineAt (lines : List TextLine) (offset : Nat) : TextLine :=
  (lines.takeWhile (·.start ≤ offset)).getLastD default

example : (lines ['a', '\r', '\n', 'b']).map TextLine.start = [0, 3] := by decide
example : lines [] = [⟨0, 0, []⟩] := by decide
example : (lines ['a', '\n']).length = 1 := by decide

end Sequencer.Text
