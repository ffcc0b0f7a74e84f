import Sequencer.Script.Basic

/-!
# Failures of reading

A script that cannot be read is blamed on one failure: of all that were noticed
along the way, also on alternatives that were given up, the one furthest along.

* `Failure` — what was expected at a place, and what stood there.
* `Failure.merge` — the further of two failures; at the same place they join.
* `Journal` — what a reader noticed: its furthest failure, and whether it made
  everything noticed before it irrelevant.  `++` puts journals in order; it is
  associative and the empty journal is neutral.
-/

namespace Sequencer.Script

/-- What could have stood at the place of a failure. -/
inductive Expected where
  | character (c : Char)
  | anything
  | somethingElse
  | whitespace
  | endOfInput
deriving Repr, DecidableEq, Inhabited

def quoted (c : Char) : String :=
  "'" ++ c.toString ++ "'"

def Expected.text : Expected → String
  | character c => quoted c
  | anything => "any"
  | somethingElse => "something else"
  | whitespace => "whitespace"
  | endOfInput => "end of input"

/-- Alternatives as a phrase: a comma between them, and `or` before the last of several. -/
def alternatives : List String → String
  | [] => ""
  | [only] => only
  | several => ", ".intercalate several.dropLast ++ ", or " ++ several.getLastD ""

structure Failure where
  /-- How far along it counts. -/
  reach : Nat
  /-- What is blamed. -/
  span : Span
  expected : List Expected
  /-- The character that stood there, if it is to be named. -/
  found : Option Char
deriving Repr, DecidableEq, Inhabited

namespace Failure

/-- The further failure.  Two at the same place keep the span of the first, collect what they
expected, and name the first character found. -/
def merge (first second : Failure) : Failure :=
  if first.reach < second.reach then
    second
  else if second.reach < first.reach then
    first
  else
    { first with
      expected := first.expected ++ second.expected.filter (fun e => !first.expected.contains e)
      found := first.found <|> second.found }

def message (failure : Failure) : String :=
  "found " ++ (failure.found.map quoted).getD "end of input" ++ " expected " ++
    alternatives (failure.expected.map Expected.text)

end Failure

/-- What a reader noticed. -/
structure Journal where
  /-- Whether earlier failures no longer count. -/
  forgets : Bool := false
  furthest : Option Failure := none
deriving Repr, DecidableEq, Inhabited

namespace Journal

def ofFailure (failure : Failure) : Journal :=
  { furthest := some failure }

def forgetting : Journal :=
  { forgets := true }

protected def append (first second : Journal) : Journal :=
  if second.forgets then
    second
  else
    { first with furthest := first.furthest.merge Failure.merge second.furthest }

instance : Append Journal := ⟨Journal.append⟩

@[simp] theorem empty_append (journal : Journal) : ({} : Journal) ++ journal = journal := by
  show Journal.append {} journal = journal
  rcases journal with ⟨forgets, _ | _⟩ <;> cases forgets <;> rfl

@[simp] theorem append_empty (journal : Journal) : journal ++ ({} : Journal) = journal := by
  show Journal.append journal {} = journal
  rcases journal with ⟨forgets, _ | _⟩ <;> cases forgets <;> rfl

end Journal

end Sequencer.Script
