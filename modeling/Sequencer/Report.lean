import Sequencer.Script.Parser
import Sequencer.Script.Compiler
import Sequencer.Text.Columns
import Sequencer.Text.Lines
import Sequencer.Text.Numeral

/-!
# Reports

A message with the part of the source text it is about, drawn for a terminal.

* `Document` — a source text in lines, with the row and column of an offset.
* `Report` — a message, a span and a few words to stand at the span.
* `Report.render` — the drawing.  A span within one line is underlined; a longer
  one is bracketed from its first line to its last.

The offsets of a span are counted in characters here.  A span whose offsets count
bytes is therefore drawn further right, or off its line, if other than ASCII
characters come before it; what lies off the text is left out.
-/

namespace Sequencer

open Script (Span)
open Text (TextLine)

/-- A source text prepared for drawing. -/
structure Document where
  lines : List TextLine
  /-- The number of characters. -/
  length : Nat

namespace Document

def ofString (source : String) : Document :=
  let text := source.toList
  ⟨Text.lines text, text.length⟩

/-- The row and the column of an offset, both counted from one. -/
def location (document : Document) (offset : Nat) : Nat × Nat :=
  let line := Text.lineAt document.lines offset
  (line.number + 1, offset - line.start + 1)

end Document

/-- A message about a stretch of a source text. -/
structure Report where
  message : String
  span : Span
  /-- Stands at the stretch. -/
  reason : String
deriving Repr, DecidableEq, Inhabited

namespace Report

/-- What is drawn under one character: a first column, and one for each further column. -/
structure Cell where
  head : Char
  tail : Char

def times (count : Nat) (c : Char) : String :=
  String.ofList (List.replicate count c)

/-- The text of a line as drawn: blanks at its end are dropped, the others become spaces. -/
def drawnText (line : TextLine) : String :=
  String.join <| line.trimmed.zipIdx.map fun (c, index) =>
    if Text.isBlank c then times (Text.columns c index) ' ' else c.toString

/-- A row under a line: a cell for each of its first characters, as wide as the character.
Behind the line's end every cell is one column wide. -/
def drawnRow (line : TextLine) (count : Nat) (cell : Nat → Cell) : String :=
  let shown := line.trimmed.toArray
  String.join <| (List.range count).map fun index =>
    let width := ((shown[index]?).map (Text.columns · index)).getD 1
    match width with
    | 0 => ""
    | extra + 1 => (cell index).head.toString ++ times extra (cell index).tail

def margin (digits : Nat) : String :=
  times (digits + 2) ' '

def numbered (digits : Nat) (line : TextLine) : String :=
  " " ++ Text.padLeft ' ' digits (Text.decimal (line.number + 1)) ++ " │ "

/-- The rows that name the place. -/
def heading (document : Document) (digits offset : Nat) : List String :=
  let (row, column) := document.location offset
  [margin digits ++ "╭─[ <unknown>:" ++ Text.decimal row ++ ":" ++ Text.decimal column ++ " ]",
    margin digits ++ "│"]

/-- The cell under a character of a span: the span is underlined, and an arrow leaves from its
middle. -/
def underline (line : TextLine) (span : Span) (middle index : Nat) : Cell :=
  let inside := span.start ≤ line.start + index && line.start + index < span.stop
  if index = middle then
    if inside then ⟨'┬', '─'⟩ else ⟨'│', ' '⟩
  else if inside then ⟨'─', '─'⟩ else ⟨' ', ' '⟩

/-- The cell in the row of the arrow, which turns right under the middle of the span. -/
def arrow (middle index : Nat) : Cell :=
  if index < middle then ⟨' ', ' '⟩
  else if index = middle then ⟨'╰', '─'⟩
  else ⟨'─', '─'⟩

/-- A line with a span underlined in it.  A span that runs off the line is not drawn. -/
def underlined (digits : Nat) (line : TextLine) (span : Span) (reason : String) : List String :=
  if line.stop < span.stop then
    [margin digits ++ "│ "]
  else
    let middle := (span.start + span.stop) / 2 - line.start
    let count := span.stop - line.start + 2
    [numbered digits line ++ drawnText line,
      margin digits ++ "│ " ++ drawnRow line count (underline line span middle),
      margin digits ++ "│ " ++ drawnRow line count (arrow middle) ++ " " ++ reason]

/-- The first and the last line of a span with a bracket beside them.  An open bracket has no
last line. -/
def bracketed (digits : Nat) (first last : TextLine) (isOpen : Bool) (reason : String) :
    List String :=
  let count := last.text.length + 2
  let skipped := if last.number - first.number > 1 || isOpen then [margin digits ++ "┆ ┆   "] else []
  let ending :=
    if isOpen then []
    else
      [numbered digits last ++ "├─▶ " ++ drawnText last,
        margin digits ++ "│ │   " ++ drawnRow last count (fun _ => ⟨' ', ' '⟩),
        margin digits ++ "│ ╰───" ++ drawnRow last count (fun _ => ⟨'─', '─'⟩) ++ " " ++ reason]
  (numbered digits first ++ "╭─▶ " ++ drawnText first) :: skipped ++ ending

/-- The rows of a drawing, from the one that names the place to the closing one. -/
def drawing (document : Document) (report : Report) : List String :=
  let start := report.span.start
  let final := max (report.span.stop - 1) start
  let first := Text.lineAt document.lines start
  let last := Text.lineAt document.lines final
  let digits := (Text.decimal (last.number + 1)).length
  let body :=
    if first.number = last.number then
      underlined digits first report.span report.reason
    else
      -- a span that runs off the text has no end to draw
      bracketed digits first last (final = document.length) report.reason
  heading document digits start ++ body ++ [times (digits + 2) '─' ++ "╯"]

/-- Whether a report's span lies outside the text. -/
def isOutside (document : Document) (report : Report) : Bool :=
  report.span.start > document.length ||
    (report.span.stop > report.span.start && report.span.stop - 1 > document.length)

/-- The text of a report.  Of a span outside the text, only the message is shown. -/
def render (document : Document) (report : Report) : String :=
  let shown := if report.isOutside document then [] else report.drawing document
  String.join ((("Error: " ++ report.message) :: shown).map (· ++ "\n"))

def ofFailure (failure : Script.Failure) : Report :=
  ⟨failure.message, failure.span, failure.message⟩

def ofFault (fault : Script.Fault) : Report :=
  ⟨fault.message, fault.span, fault.reason⟩

end Report

end Sequencer
