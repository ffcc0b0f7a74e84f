import Sequencer.Proofs.Script.Grammar

/-!
# What is read is in the grammar

Each reader of the parser ensures the relation that the grammar has for it, from
names up to `ensures_script`.  Comments are the only place where the text behind
what was read matters: one that is not ended by its line ends the text.
-/

namespace Sequencer.Script.Parser

open Reader

theorem ensures_skipBlanks :
    skipBlanks.Ensures fun _ text rest _ => Blanks text ∧ Stops Text.isBlank rest := by
  intro cursor value next read
  cases read
  obtain ⟨split, reached, all, stops⟩ := ensures_skipWhile Text.isBlank cursor
  exact ⟨_, split, reached, all, stops⟩

theorem ensures_whitespace : whitespace.Ensures fun _ text _ _ => Blanks text := by
  intro cursor value next read
  obtain ⟨split, reached, all, -⟩ := ensures_skipWhile Text.isBlank cursor
  simp only [whitespace] at read
  split at read <;> cases read <;> exact ⟨_, split, reached, all⟩

theorem ensures_located {α : Type} {reader : Reader α}
    {post : Nat → List Char → List Char → α → Prop} (ensures : reader.Ensures post) :
    (located reader).Ensures fun offset text rest value =>
      post offset text rest value.1 ∧ value.2 = ⟨offset, offset + utf8Length text⟩ := by
  intro cursor value next read
  obtain ⟨start, _, ⟨⟩, read⟩ := result_bind_eq_some.mp read
  obtain ⟨found, _, readFound, read⟩ := result_bind_eq_some.mp read
  obtain ⟨stop, _, ⟨⟩, ⟨⟩⟩ := result_bind_eq_some.mp read
  obtain ⟨text, split, reached, holds⟩ := ensures readFound
  exact ⟨text, split, reached, holds, by rw [reached]⟩

/-! ## Names and numbers -/

theorem ensures_name : name.Ensures fun _ text _ value => NameText text value := by
  apply ((ensures_satisfy isNameStart).bind fun first =>
    (ensures_takeWhile isNamePart).bind fun rest => ensures_pure _).mono
  intro offset text rest value holds
  obtain ⟨first, _, _, rfl, ⟨rfl, start⟩, rest, _, _, rfl, ⟨rfl, part⟩, rfl, rfl⟩ := holds
  simpa using NameText.intro start part

theorem ensures_hexadecimal : hexadecimal.Ensures fun _ text _ n => MagnitudeText text n := by
  apply ((ensures_expect '0').bind fun _ => (ensures_expect 'x').bind fun _ =>
    (ensures_takeWhile1 isHexDigit).bind fun digits => ensures_pure _).mono
  intro offset text rest value holds
  obtain ⟨_, _, _, rfl, rfl, _, _, _, rfl, rfl, digits, _, _, rfl, ⟨rfl, some, all⟩, rfl, rfl⟩ :=
    holds
  simpa using MagnitudeText.hexadecimal some all

theorem ensures_decimal : decimal.Ensures fun _ text _ n => MagnitudeText text n := by
  apply ((ensures_takeWhile1 Char.isDigit).bind fun digits => ensures_pure _).mono
  intro offset text rest value holds
  obtain ⟨digits, _, _, rfl, ⟨rfl, some, all⟩, rfl, rfl⟩ := holds
  simpa using MagnitudeText.decimal some all

theorem ensures_number : number.Ensures fun _ text _ value => NumberText text value := by
  have bounded : ∀ (sign : Option Unit) (magnitude : Nat),
      (if magnitude ≤ greatestMagnitude then
        (pure (if sign.isSome then -(magnitude : Int) else magnitude) : Reader Int)
      else refuse).Ensures fun _ text _ value => text = [] ∧ magnitude ≤ greatestMagnitude ∧
        value = if sign.isSome then -(magnitude : Int) else magnitude := by
    intro sign magnitude
    split
    next fits =>
      apply (ensures_pure _).mono
      intro offset text rest value holds
      obtain ⟨rfl, rfl⟩ := holds
      exact ⟨rfl, fits, rfl⟩
    next =>
      intro cursor value next read
      cases read
  apply ((ensures_expect '-').optional.bind fun sign =>
    (ensures_hexadecimal.orElse ensures_decimal).bind fun magnitude => bounded sign magnitude).mono
  intro offset text rest value holds
  obtain ⟨sign, front, _, rfl, signed, magnitude, text, _, rfl, spelled, rfl, fits, rfl⟩ := holds
  have spelled : MagnitudeText text magnitude := spelled.elim id id
  obtain ⟨_, rfl, rfl⟩ | ⟨rfl, rfl⟩ := signed
  · simpa using NumberText.negative spelled fits
  · simpa using NumberText.unsigned spelled fits

theorem ensures_value : value.Ensures fun _ text _ value => ValueText text value := by
  apply ((ensures_number.bind fun _ => ensures_pure _).orElse
    (ensures_name.bind fun _ => ensures_pure _)).mono
  intro offset text rest value holds
  obtain ⟨_, _, _, rfl, spelled, rfl, rfl⟩ | ⟨_, _, _, rfl, spelled, rfl, rfl⟩ := holds
  · simpa using ValueText.number spelled
  · simpa using ValueText.label spelled

/-! ## Arguments -/

theorem ensures_argument :
    argument.Ensures fun offset text _ found => ArgumentText offset text found := by
  apply (ensures_skipBlanks.bind fun _ => (ensures_located ensures_value).bind fun found =>
    ensures_skipBlanks.bind fun _ => ensures_pure _).mono
  intro offset text rest value holds
  obtain ⟨_, left, _, rfl, ⟨before, -⟩, ⟨value, span⟩, text, _, rfl, ⟨spelled, rfl⟩,
    _, right, _, rfl, ⟨after, -⟩, rfl, rfl⟩ := holds
  simpa using ArgumentText.intro before spelled after

theorem further_of_repeated {offset : Nat} {text rest : List Char} {arguments : List Argument}
    (repeated : Repeated (fun offset text _ found =>
      ∃ more, text = ',' :: more ∧ ArgumentText (offset + 1) more found) offset text rest arguments) :
    FurtherText offset text arguments := by
  induction repeated with
  | nil => exact .nil
  | cons head tail ih =>
    obtain ⟨more, rfl, spelled⟩ := head
    refine .cons spelled ?_
    simpa [utf8Length_cons, Char.utf8Size, Nat.add_assoc] using ih

theorem ensures_arguments :
    arguments.Ensures fun offset text _ found =>
      text = [] ∧ found = [] ∨ ∃ head more comma first further,
        text = head ++ (more ++ comma) ∧ found = first :: further ∧
        ArgumentText offset head first ∧ FurtherText (offset + utf8Length head) more further ∧
        (comma = [] ∨ comma = [',']) := by
  have next : nextArgument.Ensures fun offset text _ found =>
      ∃ more, text = ',' :: more ∧ ArgumentText (offset + 1) more found := by
    apply ((ensures_expect ',').bind fun _ => ensures_argument).mono
    intro offset text rest value holds
    obtain ⟨_, _, more, rfl, rfl, spelled⟩ := holds
    exact ⟨more, rfl, spelled⟩
  -- how the list goes on depends on the first argument, so the binds are opened up to it
  intro cursor value last read
  obtain ⟨first?, _, readFirst, read⟩ := result_bind_eq_some.mp read
  obtain ⟨head, split, reached, leading⟩ := ensures_argument.optional readFirst
  cases first? with
  | none =>
    cases read
    refine ⟨head, split, reached, .inl ⟨?_, rfl⟩⟩
    simpa using leading
  | some first =>
    have spelled : ArgumentText cursor.offset head first := by simpa using leading
    obtain ⟨tail, split', reached', further, more, back, rfl, repeated, _, comma, nothing, rfl,
      trailing, rfl, rfl⟩ := ((ensures_many next).bind fun further =>
        (ensures_expect ',').optional.bind fun _ => ensures_pure _) read
    rw [reached] at reached' repeated
    refine ⟨head ++ (more ++ comma), by simp [split, split'], ?_, .inr ⟨head, more, comma, first,
      further, rfl, rfl, spelled, further_of_repeated repeated, ?_⟩⟩
    · simp [reached', utf8Length_append, Nat.add_assoc]
    · obtain ⟨_, _, comma⟩ | ⟨_, none⟩ := trailing
      · exact .inr comma
      · exact .inl none

theorem ensures_argumentList :
    argumentList.Ensures fun offset text _ found =>
      ∃ inner, text = '(' :: (inner ++ [')']) ∧ ArgumentsText (offset + 1) inner found := by
  apply ((ensures_expect '(').bind fun _ => ensures_skipBlanks.bind fun _ =>
    ensures_arguments.bind fun _ => ensures_skipBlanks.bind fun _ =>
      (ensures_expect ')').bind fun _ => ensures_pure _).mono
  intro offset text rest value holds
  obtain ⟨_, _, _, rfl, rfl, _, left, _, rfl, ⟨before, -⟩, found, middle, _, rfl, given, _, right,
    _, rfl, ⟨after, -⟩, _, _, _, rfl, rfl, rfl, rfl⟩ := holds
  refine ⟨left ++ (middle ++ right), by simp, ?_⟩
  have open' : utf8Length ['('] = 1 := rfl
  rw [open'] at given
  obtain ⟨rfl, rfl⟩ | ⟨head, more, comma, first, further, rfl, rfl, spelled, tail, trailing⟩ :=
    given
  · exact .none (before.append after)
  · exact .padded before spelled tail trailing.symm after

/-! ## Statements -/

theorem ensures_semicolon :
    (optional semicolon).Ensures fun _ text rest _ => SemicolonBefore rest text := by
  apply (ensures_skipBlanks.bind fun _ => (ensures_expect ';').bind fun _ =>
    ensures_skipBlanks).optional_or_fails.mono
  intro offset text rest value holds
  obtain ⟨_, _, _, left, _, rfl, ⟨before, -⟩, _, _, right, rfl, rfl, after, stops⟩ |
    ⟨_, rfl, fails⟩ := holds
  · exact .semicolon before after stops
  · -- a semicolon behind the blanks would have been read
    refine .nil fun follows => ?_
    obtain ⟨more, split⟩ := List.head?_eq_some_iff.mp follows
    have skipped : Cursor.skipWhile Text.isBlank ⟨rest, offset⟩ =
        ⟨[';'] ++ more, offset + utf8Length (rest.takeWhile Text.isBlank)⟩ := by
      simp [Cursor.skipWhile, split]
    have blanks : (skipBlanks ⟨rest, offset⟩).result =
        some ((), ⟨[';'] ++ more, offset + utf8Length (rest.takeWhile Text.isBlank)⟩) := by
      rw [← skipped]
      rfl
    have taken : (semicolon ⟨rest, offset⟩).result ≠ none := by
      apply Option.ne_none_iff_exists'.mpr
      exact ⟨_, result_bind_eq_some.mpr ⟨_, _, blanks,
        result_bind_eq_some.mpr ⟨_, _, takes_expect ';' _ more, rfl⟩⟩⟩
    exact taken fails

theorem ensures_label :
    label.Ensures fun offset text rest found => StatementBefore rest offset text found := by
  apply ((ensures_located (ensures_name.bind fun _ => (ensures_expect ':').bind fun _ =>
    ensures_pure _)).bind fun _ => ensures_pure _).mono
  intro offset text rest value holds
  obtain ⟨⟨name, span⟩, _, _, rfl, ⟨⟨_, text, _, rfl, spelled, _, _, _, rfl, rfl, rfl, rfl⟩, rfl⟩,
    rfl, rfl⟩ := holds
  simpa using StatementBefore.label spelled

theorem ensures_call :
    call.Ensures fun offset text rest found => StatementBefore rest offset text found := by
  apply ((ensures_located (ensures_name.bind fun _ => ensures_whitespace.bind fun _ =>
    ensures_argumentList.bind fun _ => ensures_semicolon.bind fun _ => ensures_pure _)).bind
      fun _ => ensures_pure _).mono
  intro offset text rest value holds
  obtain ⟨⟨⟨name, found⟩, span⟩, _, _, rfl, ⟨⟨_, text, _, rfl, spelled, _, blanks, _, rfl, between,
    arguments, _, _, rfl, ⟨inner, rfl, given⟩, _, semicolon, _, rfl, closed, rfl, same⟩, rfl⟩,
    rfl, rfl⟩ := holds
  obtain ⟨rfl, rfl⟩ := Prod.mk.inj same
  have start : offset + utf8Length text + utf8Length blanks + 1 =
      offset + utf8Length (text ++ (blanks ++ ['('])) := by
    simp only [utf8Length_append, Nat.add_assoc]
    rfl
  rw [start] at given
  simpa using StatementBefore.call spelled between given closed

/-! ## Comments -/

theorem ensures_restOfLine :
    restOfLine.Ensures fun _ text rest _ => '\n' ∉ text ∧ Stops (· ≠ '\n') rest := by
  intro cursor value next read
  cases read
  obtain ⟨split, reached, all, stops⟩ := ensures_skipWhile (· ≠ '\n') cursor
  refine ⟨_, split, reached, ?_, stops⟩
  intro member
  simpa using all _ member

/-- A comment fills a gap, unless the text ends before its line does. -/
theorem ensures_comment :
    comment.Ensures fun _ text rest _ => Gap text ∨ Closing text ∧ rest = [] := by
  apply (ensures_skipBlanks.bind fun _ => (ensures_expect '/').bind fun _ =>
    (ensures_expect '/').bind fun _ => ensures_restOfLine.bind fun _ => ensures_skipBlanks).mono
  intro offset text rest value holds
  obtain ⟨_, left, _, rfl, ⟨before, -⟩, _, _, _, rfl, rfl, _, _, _, rfl, rfl, _, body, right, rfl,
    ⟨line, lineEnds⟩, after, stops⟩ := holds
  cases right with
  | cons c right =>
    have newline : c = '\n' := by simpa using lineEnds
    subst newline
    have tail : Blanks right := (blanks_cons.mp after).2
    exact .inl (before.gap.append (.comment line tail.gap))
  | nil =>
    cases rest with
    | nil => exact .inr ⟨by simpa using Closing.comment before.gap line, rfl⟩
    | cons c rest =>
      -- a line end is a blank, so it would have been skipped
      have newline : c = '\n' := by simpa using lineEnds
      subst newline
      cases stops_cons.mp stops

theorem ensures_comments :
    comments.Ensures fun _ text rest _ => Gap text ∨ Closing text ∧ rest = [] := by
  apply ((ensures_many ensures_comment).bind fun _ => ensures_pure _).mono
  intro offset text rest value holds
  obtain ⟨_, text, _, rfl, repeated, rfl, rfl⟩ := holds
  rw [List.append_nil]
  rw [List.nil_append] at repeated
  induction repeated with
  | nil => exact .inl .nil
  | cons head tail ih =>
    obtain gap | ⟨closing, nothing⟩ := head
    · obtain gap' | ⟨closing, nothing⟩ := ih
      · exact .inl (gap.append gap')
      · exact .inr ⟨gap.append_closing closing, nothing⟩
    · -- the text is over, so there is no comment behind this one
      obtain ⟨rfl, rfl⟩ := List.append_eq_nil_iff.mp nothing
      exact .inr ⟨by simpa using closing, rfl⟩

/-! ## Scripts -/

/-- A statement behind a gap, and the blanks that follow it. -/
def PaddedStatement (offset : Nat) (text rest : List Char) (found : Statement) : Prop :=
  ∃ gap middle blanks, text = gap ++ (middle ++ blanks) ∧ Gap gap ∧ Blanks blanks ∧
    StatementBefore (blanks ++ rest) (offset + utf8Length gap) middle found

theorem ensures_statement : statement.Ensures PaddedStatement := by
  apply (ensures_comments.bind fun _ => ensures_skipBlanks.bind fun _ =>
    (ensures_label.orElse ensures_call).bind fun _ => ensures_skipBlanks.bind fun _ =>
      ensures_pure _).mono
  intro offset text rest value holds
  obtain ⟨_, commented, _, rfl, gap, _, left, _, rfl, ⟨before, -⟩, found, middle, _, rfl, spelled,
    _, right, _, rfl, ⟨after, -⟩, rfl, rfl⟩ := holds
  have spelled : StatementBefore (right ++ rest)
      (offset + utf8Length commented + utf8Length left) middle value := by
    simpa using spelled.elim id id
  obtain gap | ⟨-, nothing⟩ := gap
  · refine ⟨commented ++ left, middle, right, by simp, gap.append before.gap, after, ?_⟩
    rwa [utf8Length_append, ← Nat.add_assoc]
  · -- behind a comment without a line end there is no room for a statement
    simp only [List.append_eq_nil_iff] at nothing
    obtain ⟨c, more, rfl, -⟩ := spelled.statementText.exists_cons
    cases nothing.1.2.1

/-- Statements one behind the other, between a gap and a closing, are a script. -/
theorem scriptReading_of_repeated {offset : Nat} {text closing : List Char}
    {script : List Statement} (repeated : Repeated PaddedStatement offset text closing script)
    {start : Nat} {lead : List Char} (gap : Gap lead) (closes : Closing closing)
    (reached : start + utf8Length lead = offset) :
    ScriptReading start (lead ++ (text ++ closing)) script := by
  -- the blanks behind a statement are the lead of the next, so the induction is over any lead
  induction repeated generalizing start lead with
  | nil => exact .closing (gap.append_closing closes)
  | @cons _ _ back closing found script head tail ih =>
    obtain ⟨gap', middle, blanks, rfl, isGap, areBlanks, spelled⟩ := head
    subst reached
    have spelled : StatementBefore (blanks ++ (back ++ closing))
        (start + utf8Length (lead ++ gap')) middle found := by
      rwa [utf8Length_append, ← Nat.add_assoc]
    have after : ScriptReading (start + utf8Length (lead ++ gap') + utf8Length middle)
        (blanks ++ (back ++ closing)) script :=
      ih areBlanks.gap closes (by simp [utf8Length_append, Nat.add_assoc])
    simpa using ScriptReading.statement (gap.append isGap) spelled after

theorem ensures_endOfInput : endOfInput.Ensures fun _ text rest _ => text = [] ∧ rest = [] := by
  intro cursor value next read
  obtain ⟨_ | ⟨c, rest⟩, offset⟩ := cursor
  · cases read
    exact ⟨[], rfl, rfl, rfl, rfl⟩
  · cases read

theorem ensures_script :
    script.Ensures fun offset text rest found => rest = [] ∧ ScriptReading offset text found := by
  apply (ensures_skipBlanks.bind fun _ => (ensures_many ensures_statement).bind fun _ =>
    ensures_comments.bind fun _ => ensures_skipBlanks.bind fun _ => ensures_endOfInput.bind fun _ =>
      ensures_pure _).mono
  intro offset text rest value holds
  obtain ⟨_, lead, _, rfl, ⟨before, -⟩, found, body, _, rfl, repeated, _, commented, _, rfl, gap,
    _, blanks, _, rfl, ⟨after, -⟩, _, _, _, rfl, ⟨rfl, nothing⟩, rfl, rfl⟩ := holds
  obtain rfl : rest = [] := by simpa using nothing
  have closes : Closing (commented ++ blanks) := by
    obtain gap | ⟨closing, nothing⟩ := gap
    · exact .gap (gap.append after.gap)
    · obtain rfl : blanks = [] := by simpa using nothing
      simpa using closing
  simp only [List.append_nil] at repeated
  exact ⟨rfl, by simpa using scriptReading_of_repeated repeated before.gap closes rfl⟩

end Sequencer.Script.Parser

namespace Sequencer.Script

theorem scriptReading_of_parse {source : String} {script : List Statement}
    (parsed : parse source = .ok script) : ScriptReading 0 source.toList script := by
  unfold parse at parsed
  cases read : (Parser.script (.ofString source)).result with
  | none => simp [read] at parsed
  | some result =>
    obtain ⟨found, last⟩ := result
    simp only [read, Except.ok.injEq] at parsed
    subst parsed
    obtain ⟨text, split, -, nothing, spelled⟩ := Parser.ensures_script read
    rw [nothing, List.append_nil] at split
    have whole : source.toList = text := split
    rw [whole]
    exact spelled

theorem scriptText_of_parse {source : String} {script : List Statement}
    (parsed : parse source = .ok script) : ScriptText 0 source.toList script :=
  (scriptReading_of_parse parsed).scriptText

end Sequencer.Script
