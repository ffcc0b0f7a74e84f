import Sequencer.Proofs.Script.Completeness.Scripts
import Sequencer.Proofs.Script.Spans

/-!
# What the spans of a script say about its source

A span is noted down while a statement is read, and only reports look at it again.  What
can be told from the spans of an accepted script:

* `ScriptText.exists_gap` — between any two neighbours there are blanks and comments only.
* `StatementBefore.fills` — a statement's span takes out the whole statement, up to its
  parenthesis or to the blanks behind its semicolon, and each argument's span the argument.
* `parse_eq_singleton` — what a statement's span takes out is a script of that statement,
  with its spans counted from there.
* `faithful_of_parse` — all of it, whatever the source.
-/

namespace Sequencer.Script

/-! ## Spans from another origin -/

/-- The span in a text that starts at the origin. -/
def Span.relativeTo (origin : Nat) (span : Span) : Span :=
  ⟨span.start - origin, span.stop - origin⟩

def Argument.relativeTo (origin : Nat) (argument : Argument) : Argument :=
  { argument with span := argument.span.relativeTo origin }

def Call.relativeTo (origin : Nat) (made : Call) : Call :=
  ⟨made.name, made.arguments.map (Argument.relativeTo origin), made.span.relativeTo origin⟩

/-- The statement with every span in a text that starts at the origin. -/
def Statement.relativeTo (origin : Nat) : Statement → Statement
  | .label name span => .label name (span.relativeTo origin)
  | .call made => .call (made.relativeTo origin)

@[simp] theorem Span.relativeTo_add (origin start stop : Nat) :
    (⟨origin + start, origin + stop⟩ : Span).relativeTo origin = ⟨start, stop⟩ := by
  simp [Span.relativeTo]

section Grammar

variable {origin offset : Nat} {text rest : List Char}

theorem ArgumentText.relativeTo {argument : Argument}
    (spelled : ArgumentText (origin + offset) text argument) :
    ArgumentText offset text (argument.relativeTo origin) := by
  obtain ⟨before, value, after⟩ := spelled
  simpa [Argument.relativeTo, Nat.add_assoc] using ArgumentText.intro before value after

theorem FurtherText.relativeTo {arguments : List Argument}
    (spelled : FurtherText (origin + offset) text arguments) :
    FurtherText offset text (arguments.map (Argument.relativeTo origin)) := by
  generalize reached : origin + offset = place at spelled
  induction spelled generalizing offset with
  | nil => exact .nil
  | @cons _ text rest argument arguments head tail ih =>
    subst reached
    rw [Nat.add_assoc] at head
    exact .cons head.relativeTo (ih (by simp only [Nat.add_assoc]))

theorem ArgumentsText.relativeTo {arguments : List Argument}
    (spelled : ArgumentsText (origin + offset) text arguments) :
    ArgumentsText offset text (arguments.map (Argument.relativeTo origin)) := by
  cases spelled with
  | none only => exact .none only
  | some head tail trailing =>
    rw [Nat.add_assoc] at tail
    exact .some head.relativeTo tail.relativeTo trailing

theorem StatementBefore.relativeTo {statement : Statement}
    (spelled : StatementBefore rest (origin + offset) text statement) :
    StatementBefore rest offset text (statement.relativeTo origin) := by
  cases spelled with
  | label spelled =>
    simpa [Statement.relativeTo, Nat.add_assoc] using StatementBefore.label spelled
  | call spelled between given closed =>
    rw [Nat.add_assoc] at given
    simpa [Statement.relativeTo, Call.relativeTo, Nat.add_assoc] using
      StatementBefore.call spelled between given.relativeTo closed

/-! ## A statement alone -/

theorem SemicolonBefore.alone (closed : SemicolonBefore rest text) : SemicolonBefore [] text := by
  cases closed with
  | nil => exact .nil (by simp)
  | semicolon before after => exact .semicolon before after (stops_nil _)

/-- A statement goes no further where there is nothing behind it. -/
theorem StatementBefore.alone {statement : Statement}
    (spelled : StatementBefore rest offset text statement) :
    StatementBefore [] offset text statement := by
  cases spelled with
  | label spelled => exact .label spelled
  | call spelled between given closed => exact .call spelled between given closed.alone

theorem takes_statements_singleton {statement : Statement}
    (spelled : StatementBefore [] offset text statement) :
    (Reader.many Parser.statement Parser.consumes_statement).Takes offset text [] [statement] := by
  obtain ⟨c, more, rfl, start⟩ := spelled.statementText.exists_cons
  have other : (c :: more ++ []).head? ≠ some '/' := head_cons_ne start (by decide) _
  have visible : Stops Text.isBlank (c :: more ++ []) :=
    stops_cons.mpr (isBlank_of_isNameStart start)
  have skipped := Parser.takes_skipBlanks (offset + utf8Length (c :: more)) blanks_nil (stops_nil _)
  have taken : Parser.statement.Takes offset (c :: more) [] statement :=
    Parser.Takes.gap (.inl .nil) visible other
      ((Parser.takes_label_or_call spelled).bind_done (skipped.bind_pure fun _ => statement))
  have ended := Parser.fails_statement (offset + utf8Length (c :: more)) (.gap .nil)
  simpa using taken.many_cons (ended.many Parser.consumes_statement)

/-- The text of one statement is a script of that statement. -/
theorem parse_eq_singleton {statement : Statement} (spelled : StatementBefore [] 0 text statement) :
    parse (String.ofList text) = .ok [statement] := by
  obtain ⟨c, more, rfl, start⟩ := spelled.statementText.exists_cons
  have visible : Stops Text.isBlank (c :: more ++ []) :=
    stops_cons.mpr (isBlank_of_isNameStart start)
  have taken := Parser.takes_script_of_statements blanks_nil visible
    (takes_statements_singleton spelled) (.gap .nil)
  exact parse_of_takes (by simpa using taken)

/-- The text of one argument is read as that argument. -/
theorem takes_argument_alone {value : Value} (spelled : ValueText text value) :
    Parser.argument.Takes 0 text [] ⟨value, 0, utf8Length text⟩ := by
  have padded : ArgumentText 0 ([] ++ (text ++ [])) _ := .intro blanks_nil spelled blanks_nil
  have whole : ArgumentText 0 text ⟨value, 0, utf8Length text⟩ := by simpa using padded
  exact Parser.takes_argument_of_stops whole (stops_nil _) (stops_nil _)

/-! ## Between statements -/

/-- From the end of the last statement in front to the start of the first one behind, where there
is one, and else from the start or to the end of the text. -/
def Span.between (start stop : Nat) (front back : List Statement) : Span :=
  ⟨(front.getLast?.map (·.span.stop)).getD start, (back.head?.map (·.span.start)).getD stop⟩

theorem Span.between_cons (start stop : Nat) (statement : Statement) (front back : List Statement) :
    between start stop (statement :: front) back = between statement.span.stop stop front back := by
  simp only [between, List.getLast?_cons, Option.map_some, Option.getD_some]
  cases front.getLast? <;> rfl

/-- Wherever the statements are parted, blanks and comments are all that is left between them. -/
theorem ScriptText.exists_gap {script front back : List Statement}
    (spelled : ScriptText offset text script) (parted : script = front ++ back) :
    ∃ gap, (Span.between offset (offset + utf8Length text) front back).Cuts offset text gap ∧
      Closing gap ∧ (back ≠ [] → Gap gap) := by
  induction spelled generalizing front with
  | @closing offset text closing =>
    obtain ⟨rfl, rfl⟩ := List.append_eq_nil_iff.mp parted.symm
    exact ⟨text, ⟨[], [], by simp, by simp [Span.between]⟩, closing, by simp⟩
  | @statement offset gap text rest statement script before spelled after ih =>
    cases front with
    | nil =>
      obtain rfl : statement :: script = back := parted
      refine ⟨gap, ⟨[], text ++ rest, rfl, ?_⟩, .gap before, fun _ => before⟩
      simp [Span.between, spelled.span_eq]
    | cons first front =>
      obtain ⟨rfl, further⟩ := List.cons.inj parted
      obtain ⟨gap', cuts, closing, isGap⟩ := ih further
      have ended : offset + utf8Length (gap ++ (text ++ rest)) =
          offset + utf8Length gap + utf8Length text + utf8Length rest := by
        simp only [utf8Length_append, Nat.add_assoc]
      refine ⟨gap', ?_, closing, isGap⟩
      rw [Span.between_cons, spelled.span_eq, ended]
      exact cuts.behind

/-! ## Inside statements -/

theorem StatementText.utf8Length_pos {statement : Statement}
    (spelled : StatementText offset text statement) : 0 < utf8Length text := by
  obtain ⟨c, more, rfl, -⟩ := spelled.exists_cons
  rw [utf8Length_cons]
  exact Nat.add_pos_left c.utf8Size_pos _

theorem ScriptReading.exists_slice {script : List Statement}
    (reading : ScriptReading offset text script) :
    ∀ statement ∈ script, ∃ before slice after, text = before ++ (slice ++ after) ∧
      StatementBefore after (offset + utf8Length before) slice statement := by
  induction reading with
  | closing => simp
  | @statement offset gap text rest statement script _ spelled _ ih =>
    refine List.forall_mem_cons.mpr ⟨⟨gap, text, rest, rfl, spelled⟩, fun other member => ?_⟩
    obtain ⟨before, slice, after, rfl, further⟩ := ih other member
    refine ⟨gap ++ (text ++ before), slice, after, by simp, ?_⟩
    simpa only [utf8Length_append, Nat.add_assoc] using further

theorem not_mem_of_all {ok : Char → Bool} {c : Char} (all : ∀ d ∈ text, ok d = true)
    (outside : ok c = false) : c ∉ text := by
  intro member
  rw [all c member] at outside
  cases outside

theorem NameText.not_mem_close {name : String} (spelled : NameText text name) : ')' ∉ text :=
  not_mem_of_all spelled.isNamePart (by decide)

theorem MagnitudeText.not_mem_close {n : Nat} (spelled : MagnitudeText text n) : ')' ∉ text := by
  cases spelled with
  | hexadecimal _ all => simpa using not_mem_of_all all (by decide)
  | decimal _ all => exact not_mem_of_all all (by decide)

theorem ValueText.not_mem_close {value : Value} (spelled : ValueText text value) :
    ')' ∉ text := by
  cases spelled with
  | number spelled =>
    cases spelled with
    | unsigned magnitude => exact magnitude.not_mem_close
    | negative magnitude => simpa using magnitude.not_mem_close
  | label spelled => exact spelled.not_mem_close

theorem Blanks.not_mem_close (areBlanks : Blanks text) : ')' ∉ text :=
  not_mem_of_all areBlanks (by decide)

theorem ArgumentText.not_mem_close {argument : Argument}
    (spelled : ArgumentText offset text argument) : ')' ∉ text := by
  obtain ⟨before, value, after⟩ := spelled
  simp [before.not_mem_close, value.not_mem_close, after.not_mem_close]

theorem FurtherText.not_mem_close {arguments : List Argument}
    (spelled : FurtherText offset text arguments) : ')' ∉ text := by
  induction spelled with
  | nil => simp
  | cons head _ ih => simp [head.not_mem_close, ih]

/-- The first closing parenthesis behind the opening one is that of the call. -/
theorem ArgumentsText.not_mem_close {arguments : List Argument}
    (spelled : ArgumentsText offset text arguments) : ')' ∉ text := by
  cases spelled with
  | none only => exact only.not_mem_close
  | some head tail trailing =>
    cases trailing with
    | nil => simp [head.not_mem_close, tail.not_mem_close]
    | comma after => simp [head.not_mem_close, tail.not_mem_close, after.not_mem_close]

/-- Whether a slice of a source text is all of a statement, where the rest of the text is behind
it. -/
inductive Statement.Fills (rest : List Char) : List Char → Statement → Prop where
  | label (name : String) (span : Span) : Fills rest (name.toList ++ [':']) (.label name span)
  | call (made : Call) {blanks inner semicolon : List Char} (between : Blanks blanks)
      (ended : ')' ∉ inner) (closed : SemicolonBefore rest semicolon)
      (inOrder : InOrder (made.arguments.map Argument.span))
      (given : ∀ argument ∈ made.arguments, ∃ slice,
        argument.span.Cuts (made.span.start + utf8Length (made.name.toList ++ (blanks ++ ['('])))
          inner slice ∧
        Parser.argument.Takes 0 slice [] (argument.relativeTo argument.span.start)) :
      Fills rest (made.name.toList ++ (blanks ++ '(' :: (inner ++ ')' :: semicolon))) (.call made)

theorem NameText.toList_eq {name : String} (spelled : NameText text name) :
    name.toList = text := by
  cases spelled with
  | intro => exact String.toList_ofList

/-- What a span takes out is a value, so it is read as its argument alone. -/
theorem Span.Cuts.takes {argument : Argument} {slice : List Char}
    (cuts : argument.span.Cuts offset text slice) (spelled : ValueText slice argument.value) :
    Parser.argument.Takes 0 slice [] (argument.relativeTo argument.span.start) := by
  obtain ⟨value, span⟩ := argument
  obtain ⟨before, after, -, rfl⟩ := cuts
  simpa [Argument.relativeTo, Span.relativeTo] using takes_argument_alone spelled

theorem StatementBefore.fills {statement : Statement}
    (spelled : StatementBefore rest offset text statement) : statement.Fills rest text := by
  cases spelled with
  | label spelled =>
    rw [← spelled.toList_eq]
    exact .label _ _
  | @call text blanks inner semicolon name arguments spelled between given closed =>
    obtain rfl := spelled.toList_eq
    have inside : ∀ argument ∈ arguments, ∃ slice,
        argument.span.Cuts (offset + utf8Length (name.toList ++ (blanks ++ ['(']))) inner slice ∧
          Parser.argument.Takes 0 slice [] (argument.relativeTo argument.span.start) := by
      intro argument member
      obtain ⟨slice, cuts, value⟩ := given.cuts argument member
      exact ⟨slice, cuts, cuts.takes value⟩
    exact .call ⟨name, arguments, _⟩ between given.not_mem_close closed given.inOrder inside

end Grammar

/-! ## What spans promise -/

/-- What a reader of a source text may rely on who knows the spans of its script. -/
structure Faithful (source : String) (script : List Statement) : Prop where
  inOrder : InOrder (script.map Statement.span)
  /-- Outside the statements there are blanks and comments only. -/
  outside : ∀ front back, script = front ++ back → ∃ gap,
    (Span.between 0 (utf8Length source.toList) front back).Cuts 0 source.toList gap ∧
      Closing gap ∧ (back ≠ [] → Gap gap)
  /-- What a statement's span takes out is the statement, and is read as that alone. -/
  inside : ∀ statement ∈ script, ∃ before slice after,
    source.toList = before ++ (slice ++ after) ∧
      statement.span = ⟨utf8Length before, utf8Length before + utf8Length slice⟩ ∧
      statement.span.start < statement.span.stop ∧ statement.Fills after slice ∧
      parse (String.ofList slice) = .ok [statement.relativeTo statement.span.start]

/-- Whatever is accepted has faithful spans. -/
theorem faithful_of_parse {source : String} {script : List Statement}
    (parsed : parse source = .ok script) : Faithful source script := by
  have reading := scriptReading_of_parse parsed
  have spelled := reading.scriptText
  refine ⟨spelled.inOrder, fun front back parted => ?_, fun statement member => ?_⟩
  · simpa using spelled.exists_gap parted
  · obtain ⟨before, slice, after, split, spelled⟩ := reading.exists_slice statement member
    rw [Nat.zero_add] at spelled
    have span := spelled.statementText.span_eq
    have alone : StatementBefore [] 0 slice (statement.relativeTo (utf8Length before)) :=
      spelled.alone.relativeTo
    refine ⟨before, slice, after, split, span, ?_, spelled.fills, ?_⟩
    · rw [span]
      exact Nat.lt_add_of_pos_right spelled.statementText.utf8Length_pos
    · rw [span]
      exact parse_eq_singleton alone

/-- A source with characters of several bytes in comments, a comma behind the last argument, and
blanks around a semicolon. -/
def commentedSource : String :=
  "// größe\nintro: db( 60 ,-0x1f, ) ; // ∞\njump(intro)"

def commentedScript : List Statement :=
  [.label "intro" ⟨11, 17⟩,
    .call ⟨"db", [⟨.number 60, ⟨22, 24⟩⟩, ⟨.number (-31), ⟨26, 31⟩⟩], ⟨18, 37⟩⟩,
    .call ⟨"jump", [⟨.label "intro", ⟨49, 54⟩⟩], ⟨44, 55⟩⟩]

theorem faithful_commentedScript :
    parse commentedSource = .ok commentedScript ∧ Faithful commentedSource commentedScript := by
  have parsed : parse commentedSource = .ok commentedScript := by decide +kernel
  exact ⟨parsed, faithful_of_parse parsed⟩

end Sequencer.Script
