import Mathlib.Computability.MyhillNerode
import Sequencer.Proofs.Script.Reading

/-!
# Where reading stops

A reader notices failures where it stands and further along, also on alternatives that it gives
up.  Up to each such place the text could have been gone on with to one of a language, if the
reader reads nothing but texts of the language.

* `Begins` — a text can be gone on with to one of a language.
* `Cursor.Passes` — a cursor stands further along the same text.
* `Journal.Points` — the failure in a journal is about the next character behind the beginning of
  a text of the language.
* `Reader.Spells` — a reader of a language.  Each combinator has a lemma for it, and what it does
  to readers is an operation on their languages.
-/

namespace Sequencer.Script

open Computability

variable {language second : Language Char} {front back text rest : List Char}
  {start cursor next place : Cursor}

/-! ## Languages -/

/-- Whether a text can be gone on with to one of the language. -/
def Begins (language : Language Char) (front : List Char) : Prop :=
  ∃ more, front ++ more ∈ language

theorem begins_of_mem (member : text ∈ language) : Begins language text :=
  ⟨[], by rwa [List.append_nil]⟩

theorem begins_nil (member : text ∈ language) : Begins language [] :=
  ⟨text, member⟩

theorem Begins.mono (begins : Begins language front)
    (weaker : ∀ text ∈ language, Begins second text) : Begins second front := by
  obtain ⟨more, member⟩ := begins
  obtain ⟨further, member⟩ := weaker _ member
  exact ⟨more ++ further, by rwa [← List.append_assoc]⟩

theorem Begins.mul (begins : Begins language front) (member : text ∈ second) :
    Begins (language * second) front := by
  obtain ⟨more, leading⟩ := begins
  exact ⟨more ++ text, by simpa using Language.append_mem_mul leading member⟩

theorem Begins.append (member : front ∈ language) (begins : Begins second back) :
    Begins (language * second) (front ++ back) := by
  obtain ⟨more, trailing⟩ := begins
  exact ⟨more, by simpa using Language.append_mem_mul member trailing⟩

/-- Whether a text in front of the rest is one of the language, or could have become one if the
rest were not over. -/
def Reads (language : Language Char) (text rest : List Char) : Prop :=
  text ∈ language ∨ rest = [] ∧ Begins language text

theorem Reads.mono (reads : Reads language text rest)
    (weaker : ∀ text ∈ language, text ∈ second) : Reads second text rest :=
  reads.imp (weaker text) (And.imp_right fun begins =>
    begins.mono fun text member => begins_of_mem (weaker text member))

theorem Reads.mul (leading : Reads language front (back ++ rest))
    (trailing : Reads second back rest) (some : ∃ text, text ∈ second) : Reads (language * second) (front ++ back) rest := by
  obtain ⟨text, possible⟩ := some
  obtain leading | ⟨ended, leading⟩ := leading
  · obtain trailing | ⟨ended, trailing⟩ := trailing
    · exact .inl (Language.append_mem_mul leading trailing)
    · exact .inr ⟨ended, trailing.append leading⟩
  · obtain ⟨rfl, rfl⟩ := List.append_eq_nil_iff.mp ended
    exact .inr ⟨rfl, by simpa using leading.mul possible⟩

/-! ## Places of a text -/

/-- Whether another cursor stands at the same place of the text or further along, with the stretch
between them. -/
def Cursor.Passes (cursor : Cursor) (front : List Char) (place : Cursor) : Prop :=
  cursor.rest = front ++ place.rest ∧ place.offset = cursor.offset + utf8Length front

theorem Cursor.passes_nil (cursor : Cursor) : cursor.Passes [] cursor :=
  ⟨rfl, rfl⟩

theorem Cursor.Passes.trans (passes : cursor.Passes front next) (more : next.Passes back place) :
    cursor.Passes (front ++ back) place := by
  obtain ⟨split, reached⟩ := passes
  obtain ⟨split', reached'⟩ := more
  refine ⟨by rw [split, split', List.append_assoc], ?_⟩
  rw [reached', reached, utf8Length_append, Nat.add_assoc]

theorem Cursor.passes_skipWhile (ok : Char → Bool) (cursor : Cursor) :
    cursor.Passes (cursor.rest.takeWhile ok) (cursor.skipWhile ok) :=
  ⟨(Reader.ensures_skipWhile ok cursor).1, rfl⟩

/-- Whether the failure in a journal is about the next character behind the beginning of a text of
the language. -/
def Journal.Points (language : Language Char) (cursor : Cursor) (journal : Journal) : Prop :=
  ∀ failure ∈ journal.furthest, ∃ front place,
    cursor.Passes front place ∧ failure.span = place.spanOfNext ∧ Begins language front

namespace Journal

variable {journal journal' : Journal}

theorem points_empty : Points language cursor {} := by
  rintro _ ⟨⟩

theorem points_ofFailure {failure : Failure} (passes : cursor.Passes front place)
    (span : failure.span = place.spanOfNext) (begins : Begins language front) :
    Points language cursor (.ofFailure failure) := by
  rintro _ ⟨⟩
  exact ⟨front, place, passes, span, begins⟩

theorem Points.mono (points : Points language cursor journal)
    (weaker : ∀ text ∈ language, Begins second text) : Points second cursor journal := by
  intro failure noticed
  obtain ⟨front, place, passes, span, begins⟩ := points failure noticed
  exact ⟨front, place, passes, span, begins.mono weaker⟩

/-- What is noticed behind a stretch is about the text from its beginning as well. -/
theorem Points.behind (points : Points (language.leftQuotient front) next journal)
    (passes : cursor.Passes front next) : Points language cursor journal := by
  intro failure noticed
  obtain ⟨back, place, more, span, further, member⟩ := points failure noticed
  exact ⟨front ++ back, place, passes.trans more, span, further, by simpa using member⟩

theorem Points.mul (points : Points second next journal) (passes : cursor.Passes front next)
    (reads : Reads language front next.rest) (some : ∃ text, text ∈ second) :
    Points (language * second) cursor journal := by
  obtain leading | ⟨ended, leading⟩ := reads
  · exact (points.mono fun text member =>
      begins_of_mem (Language.append_mem_mul leading member)).behind passes
  · -- behind the end of the text there is no other place
    obtain ⟨text, possible⟩ := some
    intro failure noticed
    obtain ⟨back, place, more, span, -⟩ := points failure noticed
    have nothing : back = [] := (List.append_eq_nil_iff.mp (more.1.symm.trans ended)).1
    exact ⟨front ++ back, place, passes.trans more, span, by
      simpa [nothing] using leading.mul possible⟩

/-- The further of two failures has the span of one of them. -/
theorem span_merge (first second : Failure) :
    (first.merge second).span = first.span ∨ (first.merge second).span = second.span := by
  unfold Failure.merge
  split
  · exact .inr rfl
  · split <;> exact .inl rfl

theorem Points.append (one : Points language cursor journal)
    (two : Points language cursor journal') : Points language cursor (journal ++ journal') := by
  show Points language cursor (Journal.append journal journal')
  unfold Journal.append
  split
  · exact two
  · intro failure noticed
    cases earlier : journal.furthest with
    | none =>
      simp only [earlier, Option.merge_none_left] at noticed
      exact two failure noticed
    | some before =>
      cases later : journal'.furthest with
      | none =>
        simp only [earlier, later, Option.merge_none_right] at noticed
        exact one failure (earlier ▸ noticed)
      | some behind =>
        simp only [earlier, later, Option.merge_some_some, Option.mem_def, Option.some.injEq]
          at noticed
        subst noticed
        obtain same | same := span_merge before behind
        · rw [same]
          exact one before earlier
        · rw [same]
          exact two behind later

end Journal

/-! ## Readers of a language -/

namespace Reader

variable {α β : Type}

/-- Whether only texts of the language are read, and whatever is noticed is noticed behind the
beginning of one. -/
structure Spells (reader : Reader α) (language : Language Char) : Prop where
  some : ∃ text, text ∈ language
  read : reader.Ensures fun _ text rest _ => Reads language text rest
  noticed : ∀ cursor, (reader cursor).journal.Points language cursor

theorem Ensures.passes {reader : Reader α} {post : Nat → List Char → List Char → α → Prop}
    (ensures : reader.Ensures post) {value : α}
    (read : (reader cursor).result = .some (value, next)) :
    ∃ text, cursor.Passes text next ∧ post cursor.offset text next.rest value := by
  obtain ⟨text, split, reached, holds⟩ := ensures read
  exact ⟨text, ⟨split, reached⟩, holds⟩

theorem journal_bind_of_read {reader : Reader α} (continuation : α → Reader β) {value : α}
    (read : (reader cursor).result = .some (value, next)) :
    ((reader >>= continuation) cursor).journal =
      (reader cursor).journal ++ (continuation value next).journal := by
  show (Reader.bind reader continuation cursor).journal = _
  unfold Reader.bind
  split
  next outcome =>
    rw [outcome] at read
    cases read
  next outcome =>
    rw [outcome] at read ⊢
    cases read
    rfl

theorem points_bind {reader : Reader α} {continuation : α → Reader β}
    (noticed : (reader cursor).journal.Points language start)
    (behind : ∀ value next, (reader cursor).result = .some (value, next) →
      (continuation value next).journal.Points language start) :
    ((reader >>= continuation) cursor).journal.Points language start := by
  cases read : (reader cursor).result with
  | some found =>
    rw [journal_bind_of_read continuation read]
    exact noticed.append (behind _ _ read)
  | none =>
    show ((Reader.bind reader continuation cursor).journal).Points language start
    unfold Reader.bind
    split
    next outcome => rwa [outcome] at noticed
    next outcome =>
      rw [outcome] at read
      cases read

theorem points_orElse {reader alternative : Reader α}
    (noticed : (reader cursor).journal.Points language start)
    (otherwise : (reader cursor).result = none →
      (alternative cursor).journal.Points language start) :
    ((reader <|> alternative) cursor).journal.Points language start := by
  show ((Reader.orElse reader (fun _ => alternative) cursor).journal).Points language start
  unfold Reader.orElse
  split
  next outcome => rwa [outcome] at noticed
  next outcome =>
    rw [outcome] at noticed otherwise
    exact noticed.append (otherwise rfl)

namespace Spells

variable {reader alternative : Reader α} {continuation : α → Reader β}

theorem mono (spells : reader.Spells language) (weaker : ∀ text ∈ language, text ∈ second) :
    reader.Spells second where
  some := spells.some.imp weaker
  read := spells.read.mono fun _ _ _ _ reads => reads.mono weaker
  noticed cursor := (spells.noticed cursor).mono fun text member =>
    begins_of_mem (weaker text member)

theorem bind [Nonempty α] (first : reader.Spells language)
    (behind : ∀ value, (continuation value).Spells second) :
    (reader >>= continuation).Spells (language * second) := by
  obtain ⟨value⟩ := ‹Nonempty α›
  have possible := (behind value).some
  refine ⟨?_, ?_, fun cursor => ?_⟩
  · obtain ⟨front, leading⟩ := first.some
    obtain ⟨back, trailing⟩ := possible
    exact ⟨front ++ back, Language.append_mem_mul leading trailing⟩
  · apply (first.read.bind fun value => (behind value).read).mono
    rintro offset text rest value ⟨_, front, back, rfl, leading, trailing⟩
    exact leading.mul trailing possible
  · obtain ⟨text, member⟩ := possible
    refine points_bind ((first.noticed cursor).mono fun front leading =>
      (begins_of_mem leading).mul member) fun value next read => ?_
    obtain ⟨front, passes, reads⟩ := first.read.passes read
    exact ((behind value).noticed next).mul passes reads ⟨text, member⟩

theorem orElse (first : reader.Spells language) (other : alternative.Spells second) :
    (reader <|> alternative).Spells (language + second) := by
  have left : ∀ text ∈ language, text ∈ language + second := fun _ => .inl
  have right : ∀ text ∈ second, text ∈ language + second := fun _ => .inr
  have first := first.mono left
  have other := other.mono right
  refine ⟨first.some, ?_, fun cursor => ?_⟩
  · apply (first.read.orElse other.read).mono
    exact fun _ _ _ _ reads => reads.elim id id
  · exact points_orElse (first.noticed cursor) fun _ => other.noticed cursor

end Spells

theorem spells_pure (value : α) : (pure value : Reader α).Spells 1 where
  some := ⟨[], rfl⟩
  read := (ensures_pure value).mono fun _ _ _ _ same => .inl same.1
  noticed _ := Journal.points_empty

namespace Spells

variable {reader : Reader α}

theorem map [Nonempty α] (spells : reader.Spells language) (give : α → β) :
    (reader >>= fun value => pure (give value)).Spells language := by
  simpa using spells.bind fun value => spells_pure (give value)

theorem optional [Nonempty α] (spells : reader.Spells language) :
    (optional reader).Spells (language + 1) :=
  (spells.map Option.some).orElse (spells_pure none)

/-- What follows may depend on whether there was anything to read. -/
theorem optional_bind [Nonempty α] {continuation : Option α → Reader β} {otherwise : Language Char}
    (spells : reader.Spells language)
    (behind : ∀ value, (continuation (.some value)).Spells second)
    (instead : (continuation none).Spells otherwise) :
    (Reader.optional reader >>= continuation).Spells (language * second + otherwise) := by
  obtain ⟨value⟩ := ‹Nonempty α›
  have possible := (behind value).some
  have left : ∀ text ∈ language * second, text ∈ language * second + otherwise := fun _ => .inl
  have right : ∀ text ∈ otherwise, text ∈ language * second + otherwise := fun _ => .inr
  have instead := instead.mono right
  have begun : ∀ text ∈ language + 1, Begins (language * second + otherwise) text := by
    obtain ⟨back, trailing⟩ := possible
    rintro text (leading | rfl)
    · exact ((begins_of_mem leading).mul trailing).mono fun _ member =>
        begins_of_mem (left _ member)
    · obtain ⟨text, member⟩ := instead.some
      exact begins_nil member
  refine ⟨instead.some, ?_, fun cursor => ?_⟩
  · intro cursor value last read
    obtain ⟨found?, next, readFirst, readSecond⟩ := result_bind_eq_some.mp read
    obtain ⟨front, passes, holds⟩ := spells.read.optional.passes readFirst
    cases found? with
    | none =>
      obtain rfl : front = [] := by simpa using holds
      obtain ⟨back, more, reads⟩ := instead.read.passes readSecond
      obtain ⟨split, reached⟩ := passes.trans more
      exact ⟨back, split, reached, reads⟩
    | some found =>
      have leading : Reads language front next.rest := by simpa using holds
      obtain ⟨back, more, trailing⟩ := (behind found).read.passes readSecond
      obtain ⟨split, reached⟩ := passes.trans more
      rw [more.1] at leading
      exact ⟨front ++ back, split, reached, (leading.mul trailing possible).mono left⟩
  · refine points_bind ((spells.optional.noticed cursor).mono begun) fun found? next read => ?_
    obtain ⟨front, passes, holds⟩ := spells.read.optional.passes read
    cases found? with
    | none =>
      obtain rfl : front = [] := by simpa using holds
      refine Journal.Points.behind ?_ passes
      exact instead.noticed next
    | some found =>
      have leading : Reads language front next.rest := by simpa using holds
      exact (((behind found).noticed next).mul passes leading possible).mono fun _ member =>
        begins_of_mem (left _ member)

end Spells

/-- The run: texts of the language, one behind the other. -/
theorem Spells.many {reader : Reader α} (spells : reader.Spells language)
    (progress : reader.Consumes) : (many reader progress).Spells language∗ := by
  have leading : ∀ text ∈ language * language∗, text ∈ language∗ := fun _ member =>
    Set.mem_of_mem_of_subset member (mul_kstar_le_kstar (a := language))
  have trailing : ∀ text ∈ language∗ * language, text ∈ language∗ := fun _ member =>
    Set.mem_of_mem_of_subset member (kstar_mul_le_kstar (a := language))
  have nothing : [] ∈ language∗ := Language.nil_mem_kstar language
  refine ⟨⟨[], nothing⟩, ?_, fun start => ?_⟩
  · apply (ensures_many spells.read).mono
    intro offset text rest values repeated
    induction repeated with
    | nil => exact .inl nothing
    | cons head tail ih => exact (head.mul ih ⟨[], nothing⟩).mono leading
  · have general : ∀ (cursor : Cursor) (found : List α) (journal : Journal) (front : List Char),
        start.Passes front cursor → Reads language∗ front cursor.rest →
          journal.Points language∗ start →
            (manyFrom reader progress cursor found journal).journal.Points language∗ start := by
      intro cursor found journal front passes reads earlier
      -- the journal grows with each value, and so does the stretch that has been read
      fun_induction manyFrom reader progress cursor found journal generalizing front with
      | case1 cursor found journal value next noticed read ih =>
        have here := (spells.noticed cursor).mul passes reads spells.some
        rw [read] at here
        obtain ⟨text, more, reads'⟩ := spells.read.passes
          (show (reader cursor).result = .some (value, next) by rw [read])
        rw [more.1] at reads
        exact ih _ (passes.trans more) ((reads.mul reads' spells.some).mono trailing)
          (earlier.append (here.mono fun text member => begins_of_mem (trailing text member)))
      | case2 cursor found journal noticed read =>
        have here := (spells.noticed cursor).mul passes reads spells.some
        rw [read] at here
        exact earlier.append (here.mono fun text member => begins_of_mem (trailing text member))
    exact general start [] {} [] start.passes_nil (.inl nothing) Journal.points_empty

end Reader

end Sequencer.Script
