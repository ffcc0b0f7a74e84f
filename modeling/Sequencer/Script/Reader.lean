import Sequencer.Script.Failure
import Sequencer.Text.Blank

/-!
# Readers

A reader takes a cursor into a source text and gives a value with the cursor
behind it, or nothing; either way it keeps a journal of what it could not read.
The journal never influences the value.

* `Reader` — a monad; `<|>` tries an alternative from the same place.
* `expect`, `satisfy`, `takeWhile` — single characters and runs of them.
* `skipBlanks`, `whitespace` — blanks, without and with a journal entry.
* `many` — repetition of a reader that consumes something, which is what makes
  the repetition end.
* `Reader.Advances`, `Reader.Consumes` — a reader stays within the text, in the
  second case with at least one character read.

A failed class test counts as one character further along than the character it
blames; a failed `expect` counts where it stands.
-/

namespace Sequencer.Script

structure Cursor where
  /-- The text from here on. -/
  rest : List Char
  /-- The number of bytes before it. -/
  offset : Nat
deriving Repr, DecidableEq, Inhabited

/-- The number of bytes of a text in UTF-8. -/
def utf8Length (text : List Char) : Nat :=
  text.foldl (fun n c => n + c.utf8Size) 0

namespace Cursor

def ofString (source : String) : Cursor :=
  ⟨source.toList, 0⟩

/-- The next character and the cursor behind it. -/
def next? : Cursor → Option (Char × Cursor)
  | ⟨[], _⟩ => none
  | ⟨c :: rest, offset⟩ => some (c, ⟨rest, offset + c.utf8Size⟩)

def peek? (cursor : Cursor) : Option Char :=
  cursor.rest.head?

/-- The span of the next character, empty at the end of the text. -/
def spanOfNext (cursor : Cursor) : Span :=
  ⟨cursor.offset, cursor.offset + (cursor.peek?.map Char.utf8Size).getD 0⟩

/-- The cursor behind the run of characters of a class. -/
def skipWhile (ok : Char → Bool) (cursor : Cursor) : Cursor :=
  ⟨cursor.rest.dropWhile ok, cursor.offset + utf8Length (cursor.rest.takeWhile ok)⟩

theorem length_rest_of_next? {cursor next : Cursor} {c : Char}
    (h : cursor.next? = some (c, next)) : next.rest.length < cursor.rest.length := by
  rcases cursor with ⟨_ | ⟨d, rest⟩, offset⟩
  · simp [next?] at h
  · simp only [next?, Option.some.injEq, Prod.mk.injEq] at h
    obtain ⟨-, rfl⟩ := h
    simp

theorem length_rest_skipWhile (ok : Char → Bool) (cursor : Cursor) :
    (cursor.skipWhile ok).rest.length ≤ cursor.rest.length := by
  simpa [skipWhile] using (List.dropWhile_sublist (l := cursor.rest) ok).length_le

end Cursor

/-- The value read and the cursor behind it, if there is one, and what was noticed. -/
structure Outcome (α : Type) where
  result : Option (α × Cursor)
  journal : Journal := {}

def Reader (α : Type) : Type :=
  Cursor → Outcome α

namespace Reader

variable {α β : Type}

protected def pure (value : α) : Reader α :=
  fun cursor => { result := some (value, cursor) }

/-- Reads one value, then goes on from there. -/
protected def bind (reader : Reader α) (continuation : α → Reader β) : Reader β :=
  fun cursor =>
    match reader cursor with
    | ⟨none, journal⟩ => ⟨none, journal⟩
    | ⟨some (value, next), journal⟩ =>
      let second := continuation value next
      ⟨second.result, journal ++ second.journal⟩

/-- Reads the alternative, from the same place, if the first reader fails. -/
protected def orElse (reader : Reader α) (alternative : Unit → Reader α) : Reader α :=
  fun cursor =>
    match reader cursor with
    | ⟨some found, journal⟩ => ⟨some found, journal⟩
    | ⟨none, journal⟩ =>
      let second := alternative () cursor
      ⟨second.result, journal ++ second.journal⟩

instance : Monad Reader where
  pure := Reader.pure
  bind := Reader.bind

instance : OrElse (Reader α) := ⟨Reader.orElse⟩

def fail (failure : Failure) : Outcome α :=
  ⟨none, .ofFailure failure⟩

def position : Reader Nat :=
  fun cursor => { result := some (cursor.offset, cursor) }

def expect (c : Char) : Reader Unit :=
  fun cursor =>
    let failure : Failure := ⟨cursor.offset, cursor.spanOfNext, [.character c], cursor.peek?⟩
    match cursor.next? with
    | some (d, next) => if d = c then { result := some ((), next) } else fail failure
    | none => fail failure

/-- The failure of a class test at a cursor. -/
def refusal (cursor : Cursor) : Failure :=
  match cursor.next? with
  | some (_, next) => ⟨next.offset, cursor.spanOfNext, [.somethingElse], none⟩
  | none => ⟨cursor.offset, cursor.spanOfNext, [.anything], none⟩

def satisfy (ok : Char → Bool) : Reader Char :=
  fun cursor =>
    match cursor.next? with
    | some (c, next) => if ok c then { result := some (c, next) } else fail (refusal cursor)
    | none => fail (refusal cursor)

/-- Reads the run of characters of a class, which may be empty, and notes what ends it. -/
def takeWhile (ok : Char → Bool) : Reader (List Char) :=
  fun cursor =>
    let next := cursor.skipWhile ok
    ⟨some (cursor.rest.takeWhile ok, next), .ofFailure (refusal next)⟩

/-- Reads a run of at least one character of a class. -/
def takeWhile1 (ok : Char → Bool) : Reader (List Char) := do
  let first ← satisfy ok
  let rest ← takeWhile ok
  return first :: rest

/-- Skips blanks without a trace. -/
def skipBlanks : Reader Unit :=
  fun cursor => { result := some ((), cursor.skipWhile Text.isBlank) }

/-- Skips blanks and notes what ends them.  Unless that is the end of the text, earlier
failures no longer count. -/
def whitespace : Reader Unit :=
  fun cursor =>
    let next := cursor.skipWhile Text.isBlank
    match next.peek? with
    | some c =>
      ⟨some ((), next), ⟨true, some ⟨next.offset, next.spanOfNext, [.whitespace], some c⟩⟩⟩
    | none => ⟨some ((), next), .ofFailure (refusal next)⟩

/-- Skips the rest of a line and notes what ends it. -/
def restOfLine : Reader Unit :=
  fun cursor =>
    let next := cursor.skipWhile (· ≠ '\n')
    ⟨some ((), next),
      .ofFailure ⟨next.offset, next.spanOfNext, [.somethingElse], next.peek?⟩⟩

def refuse : Reader α :=
  fun _ => ⟨none, .forgetting⟩

def optional (reader : Reader α) : Reader (Option α) :=
  some <$> reader <|> pure none

/-! ## Progress -/

/-- Whatever is read, the rest is no longer than the text was. -/
def Advances (reader : Reader α) : Prop :=
  ∀ ⦃cursor value next⦄, (reader cursor).result = some (value, next) →
    next.rest.length ≤ cursor.rest.length

/-- Whatever is read, the rest is shorter than the text was. -/
def Consumes (reader : Reader α) : Prop :=
  ∀ ⦃cursor value next⦄, (reader cursor).result = some (value, next) →
    next.rest.length < cursor.rest.length

theorem result_bind_eq_some {reader : Reader α} {continuation : α → Reader β} {cursor last : Cursor}
    {value : β} :
    ((reader >>= continuation) cursor).result = some (value, last) ↔
      ∃ first next, (reader cursor).result = some (first, next) ∧
        (continuation first next).result = some (value, last) := by
  show (Reader.bind reader continuation cursor).result = _ ↔ _
  unfold Reader.bind
  rcases h : reader cursor with ⟨_ | ⟨first, next⟩, journal⟩
  · simp
  · constructor
    · intro second
      exact ⟨first, next, rfl, second⟩
    · rintro ⟨_, _, same, second⟩
      cases same
      exact second

theorem result_orElse (reader alternative : Reader α) (cursor : Cursor) :
    ((reader <|> alternative) cursor).result =
      ((reader cursor).result <|> (alternative cursor).result) := by
  show (Reader.orElse reader (fun _ => alternative) cursor).result = _
  unfold Reader.orElse
  rcases reader cursor with ⟨_ | _, journal⟩ <;> rfl

theorem Consumes.advances {reader : Reader α} (h : reader.Consumes) : reader.Advances :=
  fun _ _ _ read => Nat.le_of_lt (h read)

theorem advances_pure (value : α) : (pure value : Reader α).Advances := by
  intro cursor found next h
  cases h
  exact Nat.le_refl _

theorem Advances.bind {reader : Reader α} {continuation : α → Reader β} (first : reader.Advances)
    (second : ∀ value, (continuation value).Advances) : (reader >>= continuation).Advances := by
  intro cursor value last h
  obtain ⟨_, _, read, rest⟩ := result_bind_eq_some.mp h
  exact Nat.le_trans (second _ rest) (first read)

theorem Consumes.bind {reader : Reader α} {continuation : α → Reader β} (first : reader.Consumes)
    (second : ∀ value, (continuation value).Advances) : (reader >>= continuation).Consumes := by
  intro cursor value last h
  obtain ⟨_, _, read, rest⟩ := result_bind_eq_some.mp h
  exact Nat.lt_of_le_of_lt (second _ rest) (first read)

theorem Advances.bind_consumes {reader : Reader α} {continuation : α → Reader β}
    (first : reader.Advances) (second : ∀ value, (continuation value).Consumes) :
    (reader >>= continuation).Consumes := by
  intro cursor value last h
  obtain ⟨_, _, read, rest⟩ := result_bind_eq_some.mp h
  exact Nat.lt_of_lt_of_le (second _ rest) (first read)

theorem Advances.orElse {reader alternative : Reader α} (first : reader.Advances)
    (second : alternative.Advances) : (reader <|> alternative).Advances := by
  intro cursor value next h
  rw [result_orElse] at h
  rcases read : (reader cursor).result with _ | found
  · exact second (by simpa [read] using h)
  · exact first (by simpa [read] using h)

theorem Consumes.orElse {reader alternative : Reader α} (first : reader.Consumes)
    (second : alternative.Consumes) : (reader <|> alternative).Consumes := by
  intro cursor value next h
  rw [result_orElse] at h
  rcases read : (reader cursor).result with _ | found
  · exact second (by simpa [read] using h)
  · exact first (by simpa [read] using h)

theorem consumes_expect (c : Char) : (expect c).Consumes := by
  intro cursor value next h
  simp only [expect] at h
  split at h
  · next read =>
    split at h
    · cases h
      exact Cursor.length_rest_of_next? read
    · cases h
  · cases h

theorem consumes_satisfy (ok : Char → Bool) : (satisfy ok).Consumes := by
  intro cursor value next h
  simp only [satisfy] at h
  split at h
  · next read =>
    split at h
    · cases h
      exact Cursor.length_rest_of_next? read
    · cases h
  · cases h

theorem advances_takeWhile (ok : Char → Bool) : (takeWhile ok).Advances := by
  intro cursor value next h
  cases h
  exact Cursor.length_rest_skipWhile ok cursor

theorem consumes_takeWhile1 (ok : Char → Bool) : (takeWhile1 ok).Consumes :=
  (consumes_satisfy ok).bind fun _ => (advances_takeWhile ok).bind fun _ => advances_pure _

theorem advances_skipBlanks : skipBlanks.Advances := by
  intro cursor value next h
  cases h
  exact Cursor.length_rest_skipWhile _ cursor

theorem advances_whitespace : whitespace.Advances := by
  intro cursor value next h
  simp only [whitespace] at h
  split at h <;> cases h <;> exact Cursor.length_rest_skipWhile _ cursor

theorem advances_restOfLine : restOfLine.Advances := by
  intro cursor value next h
  cases h
  exact Cursor.length_rest_skipWhile _ cursor

theorem advances_position : position.Advances := by
  intro cursor value next h
  cases h
  exact Nat.le_refl _

theorem advances_optional {reader : Reader α} (h : reader.Advances) :
    (optional reader).Advances :=
  Advances.orElse (h.bind fun _ => advances_pure _) (advances_pure _)

/-! ## Repetition -/

/-- Reads values until one cannot be read, putting them in front of those already found. -/
def manyFrom (reader : Reader α) (progress : reader.Consumes) (cursor : Cursor)
    (found : List α) (journal : Journal) : Outcome (List α) :=
  match _read : reader cursor with
  | ⟨some (value, next), noticed⟩ =>
    manyFrom reader progress next (value :: found) (journal ++ noticed)
  | ⟨none, noticed⟩ => ⟨some (found.reverse, cursor), journal ++ noticed⟩
termination_by cursor.rest.length
decreasing_by exact progress (by rw [_read])

/-- Reads as many values as there are, in order. -/
def many (reader : Reader α) (progress : reader.Consumes) : Reader (List α) :=
  fun cursor => manyFrom reader progress cursor [] {}

theorem advances_many (reader : Reader α) (progress : reader.Consumes) :
    (many reader progress).Advances := by
  intro cursor value next h
  unfold many at h
  generalize ([] : List α) = found at h
  generalize ({} : Journal) = journal at h
  fun_induction manyFrom reader progress cursor found journal with
  | case1 cursor found journal value next noticed read ih =>
    exact Nat.le_trans (ih h) (Nat.le_of_lt (progress (by rw [read])))
  | case2 cursor found journal noticed read =>
    cases h
    exact Nat.le_refl _

end Reader

end Sequencer.Script
