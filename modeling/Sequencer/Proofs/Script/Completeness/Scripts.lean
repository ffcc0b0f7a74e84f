import Sequencer.Proofs.Script.Completeness.Statements

/-!
# The parser accepts exactly its grammar

A reader of comments skips as much as it can, and so does a statement with the
blanks behind it, so what is left of a layout is followed from one statement to the
next:

* `takes_many_comment` — comments are taken up to the blanks behind the last one.
* `ScriptText.drop_blanks` — a layout stays one when its leading blanks are gone.
* `parse_of_scriptText` — a layout is parsed, as the statements it lays out.
-/

namespace Sequencer.Script

open Reader

/-! ## Comments -/

/-- Blanks and comments before a rest.  Only the end of the text spares a comment its line end. -/
def GapBefore (rest text : List Char) : Prop :=
  Gap text ∨ Closing text ∧ rest = []

theorem Gap.split {text : List Char} (gap : Gap text) :
    ∃ blanks more, text = blanks ++ more ∧ Blanks blanks ∧ Gap more ∧ (more = [] ∨ ∃ body tail,
      more = '/' :: '/' :: (body ++ '\n' :: tail) ∧ '\n' ∉ body ∧ Gap tail) := by
  induction gap with
  | nil => exact ⟨[], [], rfl, blanks_nil, .nil, .inl rfl⟩
  | @blank c text isBlank gap ih =>
    obtain ⟨blanks, more, rfl, areBlanks, gap', shape⟩ := ih
    exact ⟨c :: blanks, more, rfl, blanks_cons.mpr ⟨isBlank, areBlanks⟩, gap', shape⟩
  | @comment body text line gap ih =>
    exact ⟨[], _, rfl, blanks_nil, .comment line gap, .inr ⟨body, text, rfl, line, gap⟩⟩

theorem GapBefore.gap_or_comment {rest text : List Char} (gap : GapBefore rest text) :
    Gap text ∨ ∃ front last, text = front ++ '/' :: '/' :: last ∧ Gap front ∧ '\n' ∉ last ∧
      rest = [] := by
  obtain gap | ⟨closing, ended⟩ := gap
  · exact .inl gap
  · cases closing with
    | gap gap => exact .inl gap
    | @comment front last gap line => exact .inr ⟨front, last, rfl, gap, line, ended⟩

/-- What stands before the rest is blank up to the first comment. -/
theorem GapBefore.split {rest text : List Char} (gap : GapBefore rest text) :
    ∃ blanks more, text = blanks ++ more ∧ Blanks blanks ∧ GapBefore rest more ∧
      (more = [] ∨ ∃ body tail, more = '/' :: '/' :: (body ++ tail) ∧ '\n' ∉ body ∧
        (tail = [] ∧ rest = [] ∨ ∃ tail', tail = '\n' :: tail' ∧ GapBefore rest tail')) := by
  obtain gap | ⟨front, last, rfl, gap, lastLine, ended⟩ := gap.gap_or_comment
  · obtain ⟨blanks, more, rfl, areBlanks, gap', nothing | ⟨body, tail, rfl, line, gap⟩⟩ := gap.split
    · exact ⟨blanks, more, rfl, areBlanks, .inl gap', .inl nothing⟩
    · exact ⟨blanks, _, rfl, areBlanks, .inl gap',
        .inr ⟨body, _, rfl, line, .inr ⟨tail, rfl, .inl gap⟩⟩⟩
  · -- the last comment is the first one only if the gap before it is blank
    obtain ⟨blanks, more, rfl, areBlanks, gap', rfl | ⟨body, tail, rfl, line, gap⟩⟩ := gap.split
    · refine ⟨blanks, '/' :: '/' :: last, by simp, areBlanks, .inr ⟨?_, ended⟩,
        .inr ⟨last, [], by simp, lastLine, .inl ⟨rfl, ended⟩⟩⟩
      exact Closing.comment .nil lastLine
    · refine ⟨blanks, '/' :: '/' :: (body ++ '\n' :: tail) ++ '/' :: '/' :: last, by simp,
        areBlanks, .inr ⟨.comment gap' lastLine, ended⟩,
        .inr ⟨body, '\n' :: (tail ++ '/' :: '/' :: last), by simp, line, .inr ?_⟩⟩
      exact ⟨_, rfl, .inr ⟨.comment gap lastLine, ended⟩⟩

/-- Once its leading blanks are skipped, the next character is a slash or that of the rest. -/
theorem GapBefore.exists_split {rest text : List Char} (gap : GapBefore rest text)
    (stops : Stops Text.isBlank rest) : ∃ blanks more, text = blanks ++ more ∧ Blanks blanks ∧
      GapBefore rest more ∧ Stops Text.isBlank (more ++ rest) := by
  obtain ⟨blanks, more, rfl, areBlanks, gap', rfl | ⟨body, tail, rfl, -⟩⟩ := gap.split
  · exact ⟨blanks, [], rfl, areBlanks, gap', stops⟩
  · exact ⟨blanks, _, rfl, areBlanks, gap', stops_cons.mpr (by decide)⟩

namespace Parser

variable {offset : Nat} {text rest : List Char}

theorem takes_restOfLine (offset : Nat) (line : '\n' ∉ text) (stops : Stops (· ≠ '\n') rest) :
    restOfLine.Takes offset text rest () := by
  have all : ∀ c ∈ text, (c ≠ '\n' : Bool) = true := by
    intro c member
    rw [decide_eq_true_eq]
    intro same
    exact line (same ▸ member)
  simp only [Takes, restOfLine, skipWhile_append offset all stops]

theorem takes_comment {blanks body tail : List Char} (offset : Nat) (before : Blanks blanks)
    (line : '\n' ∉ body) (lineEnd : Stops (· ≠ '\n') (tail ++ rest)) (after : Blanks tail)
    (stops : Stops Text.isBlank rest) :
    comment.Takes offset (blanks ++ '/' :: '/' :: (body ++ tail)) rest () := by
  have slash : Stops Text.isBlank ('/' :: '/' :: (body ++ tail) ++ rest) :=
    stops_cons.mpr (by decide)
  apply Takes.bind (takes_skipBlanks offset before slash)
  show Takes _ _ (['/'] ++ (['/'] ++ (body ++ tail))) rest ()
  refine Takes.bind (takes_expect '/' _ _) (Takes.bind (takes_expect '/' _ _) ?_)
  exact Takes.bind (takes_restOfLine _ line lineEnd) (takes_skipBlanks _ after stops)

theorem fails_comment {blanks : List Char} (offset : Nat) (areBlanks : Blanks blanks)
    (stops : Stops Text.isBlank rest) (other : rest.head? ≠ some '/') :
    comment.Fails offset (blanks ++ rest) :=
  (takes_skipBlanks offset areBlanks stops).bind_fails ((fails_expect _ other).bind _)

theorem takes_many_comment (offset : Nat) (gap : GapBefore rest text)
    (stops : Stops Text.isBlank rest) (other : rest.head? ≠ some '/') :
    ∃ front back found, text = front ++ back ∧ Blanks back ∧
      (many comment consumes_comment).Takes offset front (back ++ rest) found := by
  -- on the length of the gap: a comment takes away the blanks that the next one starts with
  induction measured : text.length using Nat.strongRecOn generalizing offset text with
  | ind size ih =>
    obtain ⟨blanks, more, rfl, areBlanks, -, rfl | ⟨body, tail, rfl, line, ending⟩⟩ := gap.split
    · refine ⟨[], blanks, [], by simp, areBlanks, ?_⟩
      exact (fails_comment offset areBlanks stops other).many _
    · obtain ⟨rfl, rfl⟩ | ⟨tail, rfl, gap'⟩ := ending
      · have taken : comment.Takes offset (blanks ++ '/' :: '/' :: (body ++ [])) [] () :=
          takes_comment offset areBlanks line (stops_nil _) blanks_nil (stops_nil _)
        have nothing : ∀ offset, comment.Fails offset [] := fun offset =>
          fails_comment offset blanks_nil stops other
        have whole := Takes.many_cons taken ((nothing _).many consumes_comment)
        exact ⟨_, [], [()], by simp, blanks_nil, whole⟩
      · obtain ⟨skipped, tail, rfl, areSkipped, gap', stops'⟩ := gap'.exists_split stops
        have shorter : tail.length < size := by
          rw [← measured]
          simp
          omega
        have after : Blanks ('\n' :: skipped) := blanks_cons.mpr ⟨by decide, areSkipped⟩
        have taken : comment.Takes offset (blanks ++ '/' :: '/' :: (body ++ '\n' :: skipped))
            (tail ++ rest) () :=
          takes_comment offset areBlanks line (stops_cons.mpr (by simp)) after stops'
        obtain ⟨front, back, found, rfl, areBack, further⟩ := ih _ shorter _ gap' rfl
        rw [List.append_assoc] at taken
        refine ⟨blanks ++ '/' :: '/' :: (body ++ '\n' :: skipped) ++ front, back, () :: found,
          by simp, areBack, taken.many_cons further⟩

/-- Behind blanks and comments a reader finds what it would find without them. -/
theorem Takes.gap {α : Type} {continuation : Reader α} {gap : List Char} {value : α}
    (before : GapBefore (text ++ rest) gap) (stops : Stops Text.isBlank (text ++ rest))
    (other : (text ++ rest).head? ≠ some '/')
    (second : continuation.Takes (offset + utf8Length gap) text rest value) :
    (do comments; skipBlanks; continuation).Takes offset (gap ++ text) rest value := by
  obtain ⟨front, back, found, rfl, blanks, taken⟩ := takes_many_comment offset before stops other
  rw [utf8Length_append, ← Nat.add_assoc] at second
  have commented : comments.Takes offset front (back ++ (text ++ rest)) () :=
    taken.bind_pure fun _ => ()
  rw [← List.append_assoc] at commented
  rw [List.append_assoc]
  exact Takes.bind commented (Takes.bind (takes_skipBlanks _ blanks stops) second)

theorem Fails.gap {α : Type} {continuation : Reader α}
    (before : GapBefore rest text) (stops : Stops Text.isBlank rest)
    (other : rest.head? ≠ some '/')
    (second : continuation.Fails (offset + utf8Length text) rest) :
    (do comments; skipBlanks; continuation).Fails offset (text ++ rest) := by
  obtain ⟨front, back, found, rfl, blanks, taken⟩ := takes_many_comment offset before stops other
  rw [utf8Length_append, ← Nat.add_assoc] at second
  have commented : comments.Takes offset front (back ++ rest) () := taken.bind_pure fun _ => ()
  rw [List.append_assoc]
  exact commented.bind_fails ((takes_skipBlanks _ blanks stops).bind_fails second)

end Parser

/-! ## Leading blanks -/

theorem Gap.tail {c : Char} {text : List Char} (gap : Gap (c :: text))
    (blank : Text.isBlank c = true) : Gap text := by
  cases gap with
  | blank _ gap => exact gap
  | comment => exact absurd blank (by decide)

theorem Closing.tail {c : Char} {text : List Char} (closing : Closing (c :: text))
    (blank : Text.isBlank c = true) : Closing text := by
  generalize whole : c :: text = layout at closing
  cases closing with
  | gap gap =>
    rw [← whole] at gap
    exact .gap (gap.tail blank)
  | @comment front body gap line =>
    cases front with
    | nil =>
      obtain ⟨rfl, -⟩ := List.cons.inj whole
      exact absurd blank (by decide)
    | cons d front =>
      obtain ⟨rfl, rfl⟩ := List.cons.inj whole
      exact .comment (gap.tail blank) line

theorem isBlank_of_isNameStart {c : Char} (start : isNameStart c = true) :
    Text.isBlank c = false :=
  isBlank_of_isNamePart (isNamePart_of_isNameStart start)

theorem ScriptText.tail {offset : Nat} {c : Char} {text : List Char} {script : List Statement}
    (spelled : ScriptText offset (c :: text) script) (blank : Text.isBlank c = true) :
    ScriptText (offset + c.utf8Size) text script := by
  generalize whole : c :: text = layout at spelled
  cases spelled with
  | closing closing =>
    rw [← whole] at closing
    exact .closing (closing.tail blank)
  | @statement _ gap middle rest found script before spelled after =>
    cases gap with
    | nil =>
      -- no statement starts with a blank
      obtain ⟨d, more, rfl, start⟩ := spelled.exists_cons
      obtain ⟨rfl, -⟩ := List.cons.inj whole
      rw [isBlank_of_isNameStart start] at blank
      cases blank
    | cons d gap =>
      obtain ⟨rfl, rfl⟩ := List.cons.inj whole
      rw [utf8Length_cons, ← Nat.add_assoc] at spelled after
      exact .statement (before.tail blank) spelled after

/-- A layout stays one when its leading blanks are gone. -/
theorem ScriptText.drop_blanks {offset : Nat} {blanks text : List Char} {script : List Statement}
    (areBlanks : Blanks blanks) (spelled : ScriptText offset (blanks ++ text) script) :
    ScriptText (offset + utf8Length blanks) text script := by
  induction blanks generalizing offset with
  | nil => exact spelled
  | cons c blanks ih =>
    obtain ⟨blank, areBlanks⟩ := blanks_cons.mp areBlanks
    rw [utf8Length_cons, ← Nat.add_assoc]
    exact ih areBlanks (spelled.tail blank)

theorem Gap.head_ne {gap rest : List Char} (before : Gap gap)
    (other : rest.head? ≠ some ';') : (gap ++ rest).head? ≠ some ';' := by
  cases before with
  | nil => exact other
  | blank isBlank => exact head_cons_ne isBlank (by decide) _
  | comment => simp

/-- No layout starts with a semicolon, so a semicolon is never left to the next statement. -/
theorem ScriptText.head_ne {offset : Nat} {text : List Char} {script : List Statement}
    (spelled : ScriptText offset text script) : text.head? ≠ some ';' := by
  cases spelled with
  | closing closing =>
    cases closing with
    | gap gap =>
      have nothing : ([] : List Char).head? ≠ some ';' := by simp
      simpa using gap.head_ne nothing
    | comment gap => exact gap.head_ne (by simp)
  | statement before spelled =>
    obtain ⟨c, more, rfl, start⟩ := spelled.exists_cons
    exact before.head_ne (head_cons_ne start (by decide) _)

namespace Parser

variable {offset : Nat} {text rest : List Char}

/-! ## Statements and scripts -/

theorem takes_statement {gap blanks : List Char} {found : Statement} (before : Gap gap)
    (spelled : StatementText (offset + utf8Length gap) text found) (areBlanks : Blanks blanks)
    (stops : Stops Text.isBlank rest) (other : rest.head? ≠ some ';') :
    ∃ found', found'.bare = found.bare ∧
      statement.Takes offset (gap ++ (text ++ blanks)) rest found' := by
  obtain ⟨front, back, found', split, areBack, same, spelled'⟩ :=
    spelled.exists_before areBlanks stops other
  refine ⟨found', same, ?_⟩
  obtain ⟨c, more, rfl, start⟩ := spelled.exists_cons
  refine Takes.gap (.inl before) (stops_cons.mpr (isBlank_of_isNameStart start)) ?_ ?_
  · exact head_cons_ne start (by decide) _
  · rw [split]
    have skipped := takes_skipBlanks (offset + utf8Length gap + utf8Length front) areBack stops
    exact Takes.bind (takes_label_or_call spelled') (skipped.bind_pure fun _ => found')

theorem fails_statement (offset : Nat) (closing : Closing text) : statement.Fails offset text := by
  have noLabel : ∀ offset, label.Fails offset [] := fun offset =>
    (fails_located ((fails_name offset (stops_nil _)).bind _)).bind _
  have noCall : ∀ offset, call.Fails offset [] := fun offset =>
    (fails_located ((fails_name offset (stops_nil _)).bind _)).bind _
  rw [← List.append_nil text]
  apply Fails.gap (.inr ⟨closing, rfl⟩) (stops_nil _) (by simp)
  exact ((noLabel _).orElse (noCall _)).bind _

theorem takes_statements {script : List Statement} (spelled : ScriptText offset text script) :
    ∃ front back found, text = front ++ back ∧ Closing back ∧
      found.map Statement.bare = script.map Statement.bare ∧
      (many statement consumes_statement).Takes offset front back found := by
  induction script generalizing offset text with
  | nil =>
    obtain ⟨closing⟩ := spelled
    exact ⟨[], text, [], rfl, closing, rfl, (fails_statement offset closing).many _⟩
  | cons head script ih =>
    obtain _ | @⟨_, gap, middle, rest, _, _, before, spelled, after⟩ := spelled
    -- the reader of a statement leaves none of the blanks behind it to the next
    obtain ⟨blanks, more, rfl, areBlanks, stops⟩ := exists_blanks_append rest
    have after := after.drop_blanks areBlanks
    obtain ⟨found, same, taken⟩ := takes_statement before spelled areBlanks stops after.head_ne
    have reached : offset + utf8Length (gap ++ (middle ++ blanks)) =
        offset + utf8Length gap + utf8Length middle + utf8Length blanks := by
      simp [utf8Length_append, Nat.add_assoc]
    rw [← reached] at after
    obtain ⟨front, back, further, rfl, closing, same', taken'⟩ := ih after
    exact ⟨gap ++ (middle ++ blanks) ++ front, back, found :: further, by simp, closing,
      by simp [same, same'], taken.many_cons taken'⟩

/-- A script is read once its statements are, if nothing but a closing is left. -/
theorem takes_script_of_statements {lead front back : List Char} {found : List Statement}
    (areBlanks : Blanks lead) (stops : Stops Text.isBlank (front ++ back))
    (taken : (many statement consumes_statement).Takes (offset + utf8Length lead) front back found)
    (closing : Closing back) : script.Takes offset (lead ++ (front ++ back)) [] found := by
  rw [← List.append_nil back] at stops taken
  apply Takes.bind (takes_skipBlanks offset areBlanks (by simpa using stops))
  apply Takes.bind (by simpa using taken)
  rw [← List.append_nil back]
  apply Takes.gap (.inr ⟨closing, rfl⟩) (stops_nil _) (by simp)
  exact takes_pure found _ []

theorem takes_script {script : List Statement} (spelled : ScriptText offset text script) :
    ∃ found, found.map Statement.bare = script.map Statement.bare ∧
      Parser.script.Takes offset text [] found := by
  obtain ⟨blanks, more, rfl, areBlanks, stops⟩ := exists_blanks_append text
  obtain ⟨front, back, found, rfl, closing, same, taken⟩ :=
    takes_statements (spelled.drop_blanks areBlanks)
  exact ⟨found, same, takes_script_of_statements areBlanks stops taken closing⟩

end Parser

theorem parse_of_takes {source : String} {script : List Statement}
    (taken : Parser.script.Takes 0 source.toList [] script) : parse source = .ok script := by
  rw [Takes, List.append_nil] at taken
  simp only [parse, Cursor.ofString, taken]

/-- A layout is parsed, and nothing but spans can differ. -/
theorem parse_of_scriptText {source : String} {script : List Statement}
    (spelled : ScriptText 0 source.toList script) :
    ∃ found, parse source = .ok found ∧ found.map Statement.bare = script.map Statement.bare := by
  obtain ⟨found, same, taken⟩ := Parser.takes_script spelled
  exact ⟨found, parse_of_takes taken, same⟩

/-- Spans aside, a source text is parsed as a script just if it is a layout of it. -/
theorem parse_map_bare_eq_ok_iff (source : String) (script : List Statement) :
    (parse source).map (List.map Statement.bare) = .ok (script.map Statement.bare) ↔
      IsLayout source script := by
  constructor
  · intro parsed
    cases found : parse source with
    | error failure =>
      rw [found] at parsed
      cases parsed
    | ok placed =>
      rw [found] at parsed
      exact ⟨placed, scriptText_of_parse found, Except.ok.inj parsed⟩
  · intro layout
    obtain ⟨placed, spelled, same⟩ := layout
    obtain ⟨found, parsed, same'⟩ := parse_of_scriptText spelled
    rw [parsed, ← same, ← same']
    rfl

end Sequencer.Script
