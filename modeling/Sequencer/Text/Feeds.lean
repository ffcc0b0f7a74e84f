/-!
# Lines between line feeds

A text cut at its line feeds.  Unlike the lines of a report, these do not keep what ends
them, and no other character ends one.

* `dropReturn` — a carriage return in front of a line feed belongs to the line end.
* `feedLines` — all lines of a text.  What is left at the end is a line unless it is empty.
-/

namespace Sequencer.Text

/-- A line, reversed, without a carriage return at its end. -/
def dropReturn : List Char → List Char
  | '\r' :: line => line
  | line => line

/-- Cuts a text at its line feeds, given the line read so far, reversed. -/
def cutFeeds : List Char → List Char → List (List Char)
  | [], line => if line.isEmpty then [] else [line.reverse]
  | '\n' :: rest, line => (dropReturn line).reverse :: cutFeeds rest []
  | c :: rest, line => cutFeeds rest (c :: line)

def feedLines (text : String) : List String :=
  (cutFeeds text.toList []).map String.ofList

example : feedLines "a\r\n\nb\rc\n" = ["a", "", "b\rc"] := by decide
example : feedLines "a\r" = ["a\r"] := by decide

end Sequencer.Text
