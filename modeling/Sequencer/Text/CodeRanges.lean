/-!
# Ranges of code points

A property of characters as the ranges of code points that have it, listed in ascending
order.

* `inRanges` — whether a code point lies in one of the ranges.
-/

namespace Sequencer.Text

/-- Whether a number lies in one of the ranges, ends included.  The ranges are in ascending
order: behind one that begins too late there is nothing to find. -/
def inRanges : List (Nat × Nat) → Nat → Bool
  | [], _ => false
  | (first, last) :: rest, n => first ≤ n && (n ≤ last || inRanges rest n)

end Sequencer.Text
