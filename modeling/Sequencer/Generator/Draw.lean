/-!
# Drawing numbers

Random numbers below a bound, drawn from a source of 32 bit words.

* `WordSource` — yields given words first, then those of a linear congruential
  generator, and counts them.
* `Draw` — a computation that draws words.
* `below` — a number below a bound.  The product of a word and the bound has the
  number as its high half; a word whose low half lies above the zone is thrown
  away, since the numbers would not be equally likely otherwise.
* `sharpZone`, `roughZone` — two zones.  The sharp one throws away as few words
  as possible, the rough one is computed without a division.
-/

namespace Sequencer.Generator

structure WordSource where
  /-- Words to yield first. -/
  words : List UInt32 := []
  /-- The state of the generator that takes over. -/
  state : UInt64 := 0
  /-- The number of words yielded. -/
  drawn : Nat := 0
deriving Repr, DecidableEq, Inhabited

namespace WordSource

def step (state : UInt64) : UInt64 :=
  state * 6364136223846793005 + 1442695040888963407

/-- The next word, and the source after it.  The generator gives the high half of its state. -/
def next (source : WordSource) : UInt32 × WordSource :=
  match source.words with
  | word :: words => (word, { source with words, drawn := source.drawn + 1 })
  | [] =>
    let state := step source.state
    ((state >>> 32).toUInt32, { source with state, drawn := source.drawn + 1 })

/-- More words than this hold all that the source can yield, since the generator has as many
states as there are words of 64 bits. -/
def patience (source : WordSource) : Nat :=
  source.words.length + UInt64.size

end WordSource

/-- A computation that draws from a source.  It fails if a number is refused time and again. -/
abbrev Draw := StateT WordSource Option

/-- The zone that accepts the same number of words for each result and as many as possible. -/
def sharpZone (bound : Nat) : Nat :=
  UInt32.size - 1 - (UInt32.size - bound) % bound

/-- The zone that is the bound, shifted to the top of the word. -/
def roughZone (bound : Nat) : Nat :=
  bound <<< (31 - bound.log2) - 1

/-- The high half of the product of a word and a bound. -/
def scaled (bound : Nat) (positive : 0 < bound) (word : UInt32) : Fin bound :=
  ⟨word.toNat * bound / UInt32.size, by
    rw [Nat.div_lt_iff_lt_mul (by decide), Nat.mul_comm bound]
    exact Nat.mul_lt_mul_of_pos_right word.toNat_lt positive⟩

/-- Draws at most `attempts` words, up to one whose low half lies in the zone. -/
def search (bound : Nat) (positive : 0 < bound) (zone : Nat) :
    Nat → WordSource → Option (Fin bound × WordSource)
  | 0, _ => none
  | attempts + 1, source =>
    let (word, rest) := source.next
    if word.toNat * bound % UInt32.size ≤ zone then
      some (scaled bound positive word, rest)
    else
      search bound positive zone attempts rest

/-- Draws a number below a bound with the given zone. -/
def belowWithin (zone : Nat → Nat) (bound : Nat) (positive : 0 < bound := by decide) :
    Draw (Fin bound) :=
  fun source => search bound positive (zone bound) source.patience source

def below (bound : Nat) (positive : 0 < bound := by decide) : Draw (Fin bound) :=
  belowWithin roughZone bound positive

example : roughZone 24 = 3221225471 := by decide
example : sharpZone 24 = 4294967279 := by decide

end Sequencer.Generator
