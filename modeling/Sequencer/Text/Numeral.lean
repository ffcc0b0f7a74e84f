/-!
# Numerals

Numbers as text, padded on the left where columns have to line up.

* `padLeft` — fills a text up to a width; a wider text stays whole.
* `decimal`, `hexadecimal` — the digits of a number, lower case and without a mark.
-/

namespace Sequencer.Text

/-- The text with fill characters in front, up to the given width. -/
def padLeft (fill : Char) (width : Nat) (text : String) : String :=
  String.ofList (List.replicate (width - text.length) fill) ++ text

def decimal (n : Nat) : String :=
  String.ofList (Nat.toDigits 10 n)

def hexadecimal (n : Nat) : String :=
  String.ofList (Nat.toDigits 16 n)

example : padLeft '0' 4 (decimal 7) = "0007" := by cbv
example : padLeft '0' 4 (decimal 12345) = "12345" := by cbv
example : hexadecimal 48879 = "beef" := by cbv

end Sequencer.Text
