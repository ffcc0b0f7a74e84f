import Sequencer.Proofs.Script.Beginnings
import Sequencer.Proofs.Script.Completeness.Scripts

/-!
# Where reading fails

Whichever of the failures that are noticed a script is blamed for in the end, it is about the next
character behind the beginning of a script that can be read.

* `nameTexts`, `valueTexts`, `statementTexts`, `scriptTexts` — what the grammar has for a part of a
  script, as a language.
* `Parser.spells_script` — the parser reads no other text.  Each part of the grammar has a lemma.
* `Reader.Explains` — a reader that gives nothing has noticed something.
* `failure_of_parse` — the failure that a rejected script is blamed for.
* `exists_accepted_of_rejected` — the text in front of it is not to blame.
-/

namespace Sequencer.Script

open Computability

/-! ## The languages of the grammar -/

/-- The one-letter text. -/
def only (c : Char) : Language Char :=
  {[c]}

/-- The texts of one character of a class. -/
def oneOf (ok : Char → Bool) : Language Char :=
  {text | ∃ c, text = [c] ∧ ok c = true}

/-- The texts of characters of a class. -/
def runsOf (ok : Char → Bool) : Language Char :=
  {text | ∀ c ∈ text, ok c = true}

def blankTexts : Language Char :=
  {text | Blanks text}

def nameTexts : Language Char :=
  {text | ∃ name, NameText text name}

/-- The spellings of the numbers that are not too great, without a sign. -/
def magnitudeTexts : Language Char :=
  {text | ∃ n ≤ greatestMagnitude, MagnitudeText text n}

def numberTexts : Language Char :=
  {text | ∃ value, NumberText text value}

def valueTexts : Language Char :=
  {text | ∃ value, ValueText text value}

/-- The spellings of arguments.  Where they start decides nothing but the spans. -/
def argumentTexts : Language Char :=
  {text | ∀ offset, ∃ argument, ArgumentText offset text argument}

def argumentsTexts : Language Char :=
  {text | ∀ offset, ∃ arguments, ArgumentsText offset text arguments}

def semicolonTexts : Language Char :=
  {text | Semicolon text}

def statementTexts : Language Char :=
  {text | ∀ offset, ∃ statement, StatementText offset text statement}

def gapTexts : Language Char :=
  {text | Gap text}

def scriptTexts : Language Char :=
  {text | ∀ offset, ∃ script, ScriptText offset text script}

theorem further_of_mem_kstar {text : List Char} (member : text ∈ (only ',' * argumentTexts)∗)
    (offset : Nat) : ∃ arguments, FurtherText offset text arguments := by
  obtain ⟨parts, rfl, each⟩ := member
  induction parts generalizing offset with
  | nil => exact ⟨[], .nil⟩
  | cons part parts ih =>
    obtain ⟨head, tail⟩ := List.forall_mem_cons.mp each
    obtain ⟨_, rfl, text, spelled, rfl⟩ := head
    obtain ⟨argument, spelled⟩ := spelled (offset + 1)
    obtain ⟨arguments, further⟩ := ih (offset + 1 + utf8Length text) tail
    exact ⟨argument :: arguments, by simpa using FurtherText.cons spelled further⟩

/-- A gap in front of a script makes a script, and so do statements. -/
theorem gap_append_mem {gap text : List Char} (before : Gap gap) (member : text ∈ scriptTexts) :
    gap ++ text ∈ scriptTexts := by
  intro offset
  obtain ⟨script, spelled⟩ := member (offset + utf8Length gap)
  exact ⟨script, spelled.append_gap before⟩

theorem statement_append_mem {front text : List Char} (leading : front ∈ statementTexts)
    (member : text ∈ scriptTexts) : front ++ text ∈ scriptTexts := by
  intro offset
  obtain ⟨statement, leading⟩ := leading (offset + utf8Length [])
  obtain ⟨script, spelled⟩ := member (offset + utf8Length [] + utf8Length front)
  exact ⟨statement :: script, .statement .nil leading spelled⟩

/-- Statements with gaps in front of them and blanks behind. -/
def paddedTexts : Language Char :=
  gapTexts * (blankTexts * (statementTexts * blankTexts))

theorem padded_append_mem {front text : List Char} (leading : front ∈ paddedTexts∗)
    (member : text ∈ scriptTexts) : front ++ text ∈ scriptTexts := by
  obtain ⟨parts, rfl, each⟩ := leading
  induction parts with
  | nil => exact member
  | cons part parts ih =>
    obtain ⟨head, tail⟩ := List.forall_mem_cons.mp each
    obtain ⟨gap, before, _, ⟨left, blanks, _, ⟨middle, spelled, right, after, rfl⟩, rfl⟩, rfl⟩ :=
      head
    have inner := statement_append_mem spelled (gap_append_mem (Blanks.gap after) (ih tail))
    simpa using gap_append_mem before (gap_append_mem (Blanks.gap blanks) inner)

theorem gap_of_mem_kstar {text : List Char} (member : text ∈ gapTexts∗) : Gap text := by
  obtain ⟨parts, rfl, each⟩ := member
  induction parts with
  | nil => exact .nil
  | cons part parts ih =>
    obtain ⟨head, tail⟩ := List.forall_mem_cons.mp each
    exact Gap.append head (ih tail)

theorem Closing.begins_gap {text : List Char} (closing : Closing text) : Begins gapTexts text := by
  cases closing with
  | gap gap => exact begins_of_mem gap
  | comment gap line =>
    have whole := gap.append (.comment line .nil)
    refine ⟨['\n'], ?_⟩
    show Gap _
    simpa using whole

/-- Behind a comment blanks are a part of it, or the first line end among them ends it. -/
theorem closing_of_comment {left body right : List Char} (before : Blanks left) (line : '\n' ∉ body)
    (after : Blanks right) : Closing (left ++ '/' :: '/' :: (body ++ right)) := by
  refine before.gap.append_closing ?_
  by_cases ends : '\n' ∈ right
  · obtain ⟨blanks, rest, rfl, first⟩ := List.eq_append_cons_of_mem ends
    have tail : Blanks rest := fun c member => after c (by simp [member])
    have whole : '\n' ∉ body ++ blanks := by simp [line, first]
    exact .gap (by simpa using Gap.comment whole tail.gap)
  · exact Closing.comment .nil (by simp [line, ends])

/-! ## Characters -/

namespace Reader

variable {language : Language Char}

theorem span_refusal (cursor : Cursor) : (refusal cursor).span = cursor.spanOfNext := by
  unfold refusal
  split <;> rfl

theorem points_expect {c : Char} (begins : Begins language []) (cursor : Cursor) :
    (expect c cursor).journal.Points language cursor := by
  have here : (Journal.ofFailure ⟨cursor.offset, cursor.spanOfNext, [.character c],
      cursor.peek?⟩).Points language cursor :=
    Journal.points_ofFailure cursor.passes_nil rfl begins
  simp only [expect]
  split
  · split
    · exact Journal.points_empty
    · exact here
  · exact here

theorem points_satisfy {ok : Char → Bool} (begins : Begins language []) (cursor : Cursor) :
    (satisfy ok cursor).journal.Points language cursor := by
  have here : (Journal.ofFailure (refusal cursor)).Points language cursor :=
    Journal.points_ofFailure cursor.passes_nil (span_refusal cursor) begins
  simp only [satisfy]
  split
  · split
    · exact Journal.points_empty
    · exact here
  · exact here

theorem spells_expect (c : Char) : (expect c).Spells (only c) where
  some := ⟨[c], rfl⟩
  read := (ensures_expect c).mono fun _ _ _ _ same => .inl same
  noticed := points_expect ⟨[c], rfl⟩

theorem spells_satisfy {ok : Char → Bool} {c : Char} (inClass : ok c = true) :
    (satisfy ok).Spells (oneOf ok) where
  some := ⟨[c], c, rfl, inClass⟩
  read := (ensures_satisfy ok).mono fun _ _ _ found holds => .inl ⟨found, holds⟩
  noticed := points_satisfy ⟨[c], c, rfl, inClass⟩

theorem skipped_mem_runsOf (ok : Char → Bool) (cursor : Cursor) :
    cursor.rest.takeWhile ok ∈ runsOf ok :=
  fun _ => List.mem_takeWhile_imp

theorem nil_mem_runsOf (ok : Char → Bool) : [] ∈ runsOf ok :=
  fun _ none => by cases none

theorem spells_takeWhile (ok : Char → Bool) : (takeWhile ok).Spells (runsOf ok) where
  some := ⟨[], nil_mem_runsOf ok⟩
  read := (ensures_takeWhile ok).mono fun _ _ _ _ ⟨same, all⟩ => .inl (same ▸ all)
  noticed cursor := Journal.points_ofFailure (cursor.passes_skipWhile ok) (span_refusal _)
    (begins_of_mem (skipped_mem_runsOf ok cursor))

/-- Nothing is noticed but where no character of the class stands, or behind the whole run. -/
theorem points_takeWhile1 {ok : Char → Bool} {cursor : Cursor} (begins : Begins language [])
    (run : ∀ text next, (takeWhile1 ok cursor).result = some (text, next) →
      Begins language text) :
    (takeWhile1 ok cursor).journal.Points language cursor := by
  refine points_bind (points_satisfy begins cursor) fun c next read => ?_
  apply points_bind
  · obtain ⟨_, passes, rfl, -⟩ := (ensures_satisfy ok).passes read
    refine Journal.points_ofFailure (passes.trans (next.passes_skipWhile ok)) (span_refusal _) ?_
    exact run _ _ (result_bind_eq_some.mpr ⟨c, next, read, rfl⟩)
  · exact fun _ _ _ => Journal.points_empty

end Reader

/-! ## The parts of the grammar -/

namespace Parser

open Reader

theorem spells_skipBlanks : skipBlanks.Spells blankTexts where
  some := ⟨[], nil_mem_runsOf _⟩
  read := ensures_skipBlanks.mono fun _ _ _ _ holds => .inl holds.1
  noticed _ := Journal.points_empty

theorem spells_whitespace : whitespace.Spells blankTexts where
  some := ⟨[], nil_mem_runsOf _⟩
  read := ensures_whitespace.mono fun _ _ _ _ => .inl
  noticed cursor := by
    have passes := cursor.passes_skipWhile Text.isBlank
    have begins := begins_of_mem (skipped_mem_runsOf Text.isBlank cursor)
    simp only [whitespace]
    split
    · rintro _ ⟨⟩
      exact ⟨_, _, passes, rfl, begins⟩
    · exact Journal.points_ofFailure passes (span_refusal _) begins

theorem spells_restOfLine : restOfLine.Spells (runsOf (· ≠ '\n')) where
  some := ⟨[], nil_mem_runsOf _⟩
  read := ensures_restOfLine.mono fun _ text _ _ ⟨line, _⟩ => .inl fun c member => by
    have other : c ≠ '\n' := fun same => line (same ▸ member)
    simpa using other
  noticed cursor := Journal.points_ofFailure (cursor.passes_skipWhile _) rfl
    (begins_of_mem (skipped_mem_runsOf _ cursor))

theorem spells_position : position.Spells 1 where
  some := ⟨[], rfl⟩
  read cursor _ _ read := by
    cases read
    exact ⟨[], rfl, rfl, .inl rfl⟩
  noticed _ := Journal.points_empty

theorem spells_located {α : Type} [Nonempty α] {reader : Reader α} {language : Language Char}
    (spells : reader.Spells language) : (located reader).Spells language := by
  have spells := spells_position.bind fun start => spells.bind fun value =>
    spells_position.map fun stop => (value, (⟨start, stop⟩ : Span))
  rw [mul_one, one_mul] at spells
  exact spells

theorem spells_name : name.Spells nameTexts := by
  have spells := (spells_satisfy (show isNameStart 'a' = true by decide)).bind fun first =>
    (spells_takeWhile isNamePart).map fun rest => String.ofList (first :: rest)
  refine spells.mono ?_
  rintro _ ⟨_, ⟨first, rfl, start⟩, rest, part, rfl⟩
  exact ⟨_, .intro start part⟩

/-! ### Numbers -/

section Magnitude

variable {cursor : Cursor}

theorem zero_mem_magnitudeTexts : ['0'] ∈ magnitudeTexts :=
  ⟨0, Nat.zero_le _, .decimal (by simp) (List.forall_mem_singleton.mpr rfl)⟩

/-- Unless the digits are too many, whatever is noticed is noticed in front of them or behind. -/
theorem points_hexadecimal
    (fits : ∀ n next, (hexadecimal cursor).result = some (n, next) → n ≤ greatestMagnitude) :
    (hexadecimal cursor).journal.Points magnitudeTexts cursor := by
  have shortest : ['0', 'x', '0'] ∈ magnitudeTexts :=
    ⟨0, Nat.zero_le _, .hexadecimal (show ['0'] ≠ [] by simp) (List.forall_mem_singleton.mpr rfl)⟩
  refine points_bind (points_expect ⟨_, shortest⟩ cursor) fun _ second zero => ?_
  obtain ⟨_, passes, rfl⟩ := (ensures_expect '0').passes zero
  refine points_bind ?_ fun _ third x => ?_
  · refine .behind (points_expect ?_ second) passes
    exact ⟨_, shortest⟩
  obtain ⟨_, more, rfl⟩ := (ensures_expect 'x').passes x
  refine points_bind ?_ fun _ _ _ => Journal.points_empty
  refine .behind (points_takeWhile1 ⟨_, shortest⟩ fun _ last read => ?_) (passes.trans more)
  obtain ⟨digits, _, rfl, notEmpty, all⟩ := (ensures_takeWhile1 isHexDigit).passes read
  have whole : (hexadecimal cursor).result = some (digitsValue 16 digits, last) :=
    result_bind_eq_some.mpr ⟨_, _, zero, result_bind_eq_some.mpr ⟨_, _, x,
      result_bind_eq_some.mpr ⟨_, _, read, rfl⟩⟩⟩
  exact begins_of_mem ⟨_, fits _ _ whole, .hexadecimal notEmpty all⟩

theorem points_decimal
    (fits : ∀ n next, (decimal cursor).result = some (n, next) → n ≤ greatestMagnitude) :
    (decimal cursor).journal.Points magnitudeTexts cursor := by
  refine points_bind ?_ fun _ _ _ => Journal.points_empty
  refine points_takeWhile1 ⟨_, zero_mem_magnitudeTexts⟩ fun _ last read => ?_
  obtain ⟨digits, _, rfl, notEmpty, all⟩ := (ensures_takeWhile1 Char.isDigit).passes read
  have whole : (decimal cursor).result = some (digitsValue 10 digits, last) :=
    result_bind_eq_some.mpr ⟨_, _, read, rfl⟩
  exact begins_of_mem ⟨_, fits _ _ whole, .decimal notEmpty all⟩

theorem points_magnitude
    (fits : ∀ n next, ((hexadecimal <|> decimal) cursor).result = some (n, next) →
      n ≤ greatestMagnitude) :
    ((hexadecimal <|> decimal) cursor).journal.Points magnitudeTexts cursor := by
  rw [result_orElse] at fits
  refine points_orElse (points_hexadecimal fun n next read => fits n next ?_) fun failed =>
    points_decimal fun n next read => fits n next ?_
  · rw [read]
    rfl
  · rw [failed, read]
    rfl

/-- A number that is too great is refused, and with it what has been noticed of it. -/
theorem spells_magnitude (give : Nat → Int) :
    ((hexadecimal <|> decimal) >>= fun magnitude =>
      if magnitude ≤ greatestMagnitude then pure (give magnitude) else refuse).Spells
      magnitudeTexts := by
  refine ⟨⟨_, zero_mem_magnitudeTexts⟩, ?_, fun cursor => ?_⟩
  · intro cursor value last read
    obtain ⟨n, next, readFirst, readSecond⟩ := result_bind_eq_some.mp read
    obtain ⟨text, split, reached, spelled⟩ :=
      (ensures_hexadecimal.orElse ensures_decimal) readFirst
    split at readSecond
    next fits =>
      cases readSecond
      exact ⟨text, split, reached, .inl ⟨n, fits, spelled.elim id id⟩⟩
    next => cases readSecond
  · -- what the digits amount to decides what counts, so this is no case of `Spells.bind`
    by_cases fits : ∀ n next, ((hexadecimal <|> decimal) cursor).result = some (n, next) →
      n ≤ greatestMagnitude
    · refine points_bind (points_magnitude fits) fun n next read => ?_
      rw [if_pos (fits n next read)]
      exact Journal.points_empty
    · push Not at fits
      obtain ⟨n, next, read, exceeds⟩ := fits
      rw [journal_bind_of_read _ read, if_neg (Nat.not_le.mpr exceeds)]
      rintro _ ⟨⟩

end Magnitude

theorem spells_number : number.Spells numberTexts := by
  have spells := (spells_expect '-').optional.bind fun sign =>
    spells_magnitude fun n => if sign.isSome then -(n : Int) else n
  refine spells.mono ?_
  rintro _ ⟨_, rfl | rfl, text, ⟨n, fits, spelled⟩, rfl⟩
  · exact ⟨_, .negative spelled fits⟩
  · exact ⟨_, .unsigned spelled fits⟩

theorem spells_value : value.Spells valueTexts := by
  have spells := (spells_number.map Value.number).orElse (spells_name.map Value.label)
  refine spells.mono ?_
  rintro text (⟨n, spelled⟩ | ⟨name, spelled⟩)
  · exact ⟨_, .number spelled⟩
  · exact ⟨_, .label spelled⟩

/-! ### Arguments -/

theorem spells_argument : argument.Spells argumentTexts := by
  have spells := spells_skipBlanks.bind fun _ => (spells_located spells_value).bind fun found =>
    spells_skipBlanks.map fun _ => (⟨found.1, found.2⟩ : Argument)
  refine spells.mono ?_
  rintro _ ⟨left, before, _, ⟨text, ⟨value, spelled⟩, right, after, rfl⟩, rfl⟩ offset
  exact ⟨_, .intro before spelled after⟩

theorem spells_nextArgument : nextArgument.Spells (only ',' * argumentTexts) :=
  (spells_expect ',').bind fun _ => spells_argument

theorem spells_arguments :
    arguments.Spells (argumentTexts * ((only ',' * argumentTexts)∗ * (only ',' + 1)) + 1) :=
  spells_argument.optional_bind
    (fun first => (spells_nextArgument.many consumes_nextArgument).bind fun rest =>
      (spells_expect ',').optional.map fun _ => first :: rest)
    (spells_pure [])

/-- The blanks between the parentheses go to the arguments that stand there. -/
theorem spells_argumentList :
    argumentList.Spells (only '(' * (argumentsTexts * only ')')) := by
  have spells := (spells_expect '(').bind fun _ => spells_skipBlanks.bind fun _ =>
    spells_arguments.bind fun found => spells_skipBlanks.bind fun _ =>
      (spells_expect ')').map fun _ => found
  refine spells.mono ?_
  rintro _ ⟨_, rfl, _, ⟨left, before, _, ⟨inner, given, _, ⟨right, after, _, rfl, rfl⟩, rfl⟩, rfl⟩,
    rfl⟩
  refine ⟨_, rfl, _, ⟨left ++ (inner ++ right), fun offset => ?_, _, rfl, rfl⟩, by simp⟩
  obtain ⟨head, leading, _, ⟨more, further, comma, trailing, rfl⟩, rfl⟩ | rfl := given
  · obtain ⟨argument, leading⟩ := leading (offset + utf8Length left)
    obtain ⟨arguments, further⟩ := further_of_mem_kstar further
      (offset + utf8Length left + utf8Length head)
    exact ⟨_, .padded before leading further trailing after⟩
  · exact ⟨[], .none (Blanks.append before after)⟩

/-! ### Statements -/

theorem spells_semicolon : (optional semicolon).Spells semicolonTexts := by
  have spells := (spells_skipBlanks.bind fun _ => (spells_expect ';').bind fun _ =>
    spells_skipBlanks).optional
  refine spells.mono ?_
  rintro _ (⟨left, before, _, ⟨_, rfl, right, after, rfl⟩, rfl⟩ | rfl)
  · exact .semicolon before after
  · exact .nil

theorem spells_label : label.Spells statementTexts := by
  have spells := (spells_located (spells_name.bind fun name => (spells_expect ':').map
    fun _ => name)).map fun found => Statement.label found.1 found.2
  refine spells.mono ?_
  rintro _ ⟨text, ⟨name, spelled⟩, _, rfl, rfl⟩ offset
  exact ⟨_, .label spelled⟩

theorem spells_call : call.Spells statementTexts := by
  have spells := (spells_located (spells_name.bind fun name => spells_whitespace.bind fun _ =>
    spells_argumentList.bind fun arguments => spells_semicolon.map fun _ =>
      (name, arguments))).map fun found => Statement.call ⟨found.1.1, found.1.2, found.2⟩
  refine spells.mono ?_
  rintro _ ⟨text, ⟨name, spelled⟩, _, ⟨blanks, between, _, ⟨_, ⟨_, rfl, _,
    ⟨inner, given, _, rfl, rfl⟩, rfl⟩, semicolon, closed, rfl⟩, rfl⟩, rfl⟩ offset
  obtain ⟨arguments, given⟩ := given (offset + utf8Length (text ++ (blanks ++ ['('])))
  exact ⟨_, by simpa using StatementText.call spelled between given closed⟩

/-! ### Comments and scripts -/

/-- A comment that the text ends before its line could still have filled a gap. -/
theorem spells_comment : comment.Spells gapTexts where
  some := ⟨[], .nil⟩
  read := ensures_comment.mono fun _ _ _ _ holds =>
    holds.imp_right fun ⟨closing, ended⟩ => ⟨ended, closing.begins_gap⟩
  noticed cursor := by
    -- what is read need not fill a gap, but it can be gone on with until it does
    have spells := spells_skipBlanks.bind fun _ => (spells_expect '/').bind fun _ =>
      (spells_expect '/').bind fun _ => spells_restOfLine.bind fun _ => spells_skipBlanks
    refine (spells.noticed cursor).mono ?_
    rintro _ ⟨left, before, _, ⟨_, rfl, _, ⟨_, rfl, _, ⟨body, line, right, after, rfl⟩, rfl⟩, rfl⟩,
      rfl⟩
    refine (closing_of_comment before (fun member => ?_) after).begins_gap
    simpa using line _ member

theorem spells_comments : comments.Spells gapTexts := by
  have spells := (spells_comment.many consumes_comment).map fun _ => ()
  exact spells.mono fun _ => gap_of_mem_kstar

theorem spells_statement : statement.Spells paddedTexts := by
  have spells := spells_comments.bind fun _ => spells_skipBlanks.bind fun _ =>
    (spells_label.orElse spells_call).bind fun found => spells_skipBlanks.map fun _ => found
  rwa [Language.add_self] at spells

theorem spells_endOfInput : endOfInput.Spells 1 where
  some := ⟨[], rfl⟩
  read := ensures_endOfInput.mono fun _ _ _ _ holds => .inl holds.1
  noticed cursor := by
    unfold endOfInput
    split
    · exact Journal.points_empty
    · exact Journal.points_ofFailure cursor.passes_nil rfl (begins_of_mem rfl)

theorem spells_script : script.Spells scriptTexts := by
  have spells := spells_skipBlanks.bind fun _ =>
    (spells_statement.many consumes_statement).bind fun found =>
      spells_comments.bind fun _ => spells_skipBlanks.bind fun _ =>
        spells_endOfInput.map fun _ => found
  refine spells.mono ?_
  rintro _ ⟨left, before, _, ⟨front, padded, _, ⟨gap, between, _, ⟨right, after, _, rfl, rfl⟩, rfl⟩,
    rfl⟩, rfl⟩
  have closing : gap ++ (right ++ []) ∈ scriptTexts := fun offset =>
    ⟨[], .closing (.gap (Gap.append between (by simpa using Blanks.gap after)))⟩
  exact gap_append_mem (Blanks.gap before) (padded_append_mem padded closing)

end Parser

/-! ## Something is always noticed -/

theorem Journal.isSome_furthest_append {first second : Journal} (noticed : second.furthest.isSome) :
    (first ++ second).furthest.isSome := by
  show (Journal.append first second).furthest.isSome
  unfold Journal.append
  split
  · exact noticed
  · obtain ⟨failure, found⟩ := Option.isSome_iff_exists.mp noticed
    cases first.furthest <;> simp [found]

namespace Reader

variable {α β : Type}

/-- Where nothing is read, something is noticed. -/
def Explains (reader : Reader α) : Prop :=
  ∀ cursor, (reader cursor).result = none → (reader cursor).journal.furthest.isSome

theorem Explains.bind {reader : Reader α} {continuation : α → Reader β} (explains : reader.Explains)
    (second : ∀ value, (continuation value).Explains) : (reader >>= continuation).Explains := by
  intro cursor
  have first := explains cursor
  show (Reader.bind reader continuation cursor).result = none →
    (Reader.bind reader continuation cursor).journal.furthest.isSome
  unfold Reader.bind
  split
  next journal outcome => simpa [outcome] using first
  next value next journal outcome =>
    exact fun failed => Journal.isSome_furthest_append (second value next failed)

theorem explains_pure (value : α) : (pure value : Reader α).Explains :=
  fun _ failed => by cases failed

/-- A repetition can always be read, if only as nothing. -/
theorem explains_many (reader : Reader α) (progress : reader.Consumes) :
    (many reader progress).Explains := by
  intro cursor failed
  have some : ∀ (cursor : Cursor) (found : List α) (journal : Journal),
      (manyFrom reader progress cursor found journal).result ≠ none := by
    intro cursor found journal
    fun_induction manyFrom reader progress cursor found journal with
    | case1 cursor found journal value next noticed read ih => exact ih
    | case2 cursor found journal noticed read => simp
  exact absurd failed (some cursor [] {})

end Reader

namespace Parser

open Reader

theorem explains_skipBlanks : skipBlanks.Explains :=
  fun _ failed => by cases failed

theorem explains_endOfInput : endOfInput.Explains := by
  intro cursor
  unfold endOfInput
  split
  · rintro ⟨⟩
  · exact fun _ => rfl

theorem explains_script : script.Explains :=
  explains_skipBlanks.bind fun _ => (explains_many _ _).bind fun _ =>
    ((explains_many _ _).bind fun _ => explains_pure _).bind fun _ =>
      explains_skipBlanks.bind fun _ => explains_endOfInput.bind fun _ => explains_pure _

end Parser

/-! ## Scripts that are rejected -/

/-- A script that is rejected is blamed for the next character behind the beginning of one that can
be read, or for the end of the text there. -/
theorem failure_of_parse {source : String} {failure : Failure}
    (failed : parse source = .error failure) :
    (Parser.script (.ofString source)).journal.furthest = some failure ∧
      ∃ front place, (Cursor.ofString source).Passes front place ∧
        failure.span = place.spanOfNext ∧ Begins scriptTexts front := by
  have points := Parser.spells_script.noticed (.ofString source)
  have explains := Parser.explains_script (.ofString source)
  unfold parse at failed
  cases read : (Parser.script (.ofString source)).result with
  | some result => simp [read] at failed
  | none =>
    obtain ⟨furthest, noticed⟩ := Option.isSome_iff_exists.mp (explains read)
    simp only [read, noticed, Option.getD_some, Except.error.injEq] at failed
    subst failed
    exact ⟨noticed, points furthest noticed⟩

/-- The next character, or nothing at the end of the text, stands behind what has been passed. -/
theorem Cursor.Passes.exists_piece {source : String} {front : List Char} {place : Cursor}
    (passes : (Cursor.ofString source).Passes front place) :
    ∃ piece after, source.toList = front ++ (piece ++ after) ∧ piece.length ≤ 1 ∧
      place.spanOfNext = ⟨utf8Length front, utf8Length front + utf8Length piece⟩ := by
  obtain ⟨rest, offset⟩ := place
  obtain ⟨split, reached⟩ := passes
  have whole : source.toList = front ++ rest := split
  obtain rfl : offset = utf8Length front := by simpa [Cursor.ofString] using reached
  cases rest with
  | nil => exact ⟨[], [], by simp [whole], by simp, rfl⟩
  | cons c rest =>
    refine ⟨[c], rest, by simp [whole], by simp, ?_⟩
    rw [utf8Length_cons]
    rfl

theorem exists_accepted_of_begins {front : List Char} (begins : Begins scriptTexts front) :
    ∃ accepted script, front <+: String.toList accepted ∧ parse accepted = .ok script := by
  obtain ⟨more, member⟩ := begins
  obtain ⟨script, spelled⟩ := member 0
  have whole : (String.ofList (front ++ more)).toList = front ++ more := String.toList_ofList
  rw [← whole] at spelled
  obtain ⟨found, parsed, -⟩ := parse_of_scriptText spelled
  exact ⟨_, found, ⟨more, whole.symm⟩, parsed⟩

/-- A script that is rejected is blamed for one failure, the furthest that has been noticed.  It is
about one character of the text or about its end, and the text in front of that is the beginning of
a script that is accepted. -/
theorem exists_accepted_of_rejected {source : String}
    (rejected : ∀ script, parse source ≠ .ok script) :
    ∃ failure, parse source = .error failure ∧
      (Parser.script (.ofString source)).journal.furthest = some failure ∧
      failure.span.start ≤ failure.span.stop ∧ failure.span.stop ≤ utf8Length source.toList ∧
      ∃ before piece after, source.toList = before ++ (piece ++ after) ∧ piece.length ≤ 1 ∧
        failure.span = ⟨utf8Length before, utf8Length before + utf8Length piece⟩ ∧
        ∃ accepted script, before <+: String.toList accepted ∧ parse accepted = .ok script := by
  cases failed : parse source with
  | ok script => exact absurd failed (rejected script)
  | error failure =>
    obtain ⟨furthest, before, place, passes, span, begins⟩ := failure_of_parse failed
    obtain ⟨piece, after, split, short, next⟩ := passes.exists_piece
    rw [next] at span
    refine ⟨failure, rfl, furthest, ?_, ?_, before, piece, after, split, short, span,
      exists_accepted_of_begins begins⟩
    · simp [span]
    · simp only [span, split, utf8Length_append]
      omega

/-- A source with a call within the arguments of another, where a comma is missing. -/
def unclosedSource : String :=
  "play(60 wait(2)"

theorem exists_accepted_unclosedSource :
    parse unclosedSource =
        .error ⟨8, ⟨7, 8⟩, [.somethingElse, .character ',', .character ')'], some 'w'⟩ ∧
      ∃ before piece after, unclosedSource.toList = before ++ (piece ++ after) ∧
        (⟨7, 8⟩ : Span) = ⟨utf8Length before, utf8Length before + utf8Length piece⟩ ∧
        ∃ accepted script, before <+: String.toList accepted ∧ parse accepted = .ok script := by
  have failed : parse unclosedSource =
      .error ⟨8, ⟨7, 8⟩, [.somethingElse, .character ',', .character ')'], some 'w'⟩ := by
    decide +kernel
  have rejected : ∀ script, parse unclosedSource ≠ .ok script := by simp [failed]
  obtain ⟨failure, same, -, -, -, before, piece, after, split, -, span, viable⟩ :=
    exists_accepted_of_rejected rejected
  rw [failed] at same
  cases same
  exact ⟨failed, before, piece, after, split, span, viable⟩

end Sequencer.Script
