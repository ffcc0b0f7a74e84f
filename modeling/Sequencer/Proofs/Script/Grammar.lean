import Sequencer.Proofs.Script.Reading

/-!
# The grammar as a relation

Which texts are a layout of which statements, said without a reader.  A relation
that takes an offset is about a text that starts there, and fixes the spans.

* `Gap`, `Closing` — blanks and comments between statements, and behind the last.
* `NameText`, `NumberText`, `ArgumentText`, `StatementText` — the spellings of the
  parts of a statement.
* `ScriptText` — a whole script.
* `StatementBefore` — a statement and the text behind it, which decides how far a call goes.
* `ScriptReading` — a layout of statements in which every call goes as far as it can.
* `IsLayout` — a source text is a layout of a script, spans aside.
-/

namespace Sequencer.Script

/-- Any number of blanks. -/
def Blanks (text : List Char) : Prop :=
  ∀ c ∈ text, Text.isBlank c = true

/-- Blanks and comments.  Each comment ends with its line. -/
inductive Gap : List Char → Prop where
  | nil : Gap []
  | blank {c : Char} {text : List Char} (isBlank : Text.isBlank c = true) (rest : Gap text) :
      Gap (c :: text)
  | comment {body text : List Char} (line : '\n' ∉ body) (rest : Gap text) :
      Gap ('/' :: '/' :: (body ++ '\n' :: text))

/-- Blanks and comments up to the end of a text, where a comment may end as well. -/
inductive Closing : List Char → Prop where
  | gap {text : List Char} (gap : Gap text) : Closing text
  | comment {text body : List Char} (gap : Gap text) (line : '\n' ∉ body) :
      Closing (text ++ '/' :: '/' :: body)

/-- The spelling of a name. -/
inductive NameText : List Char → String → Prop where
  | intro {first : Char} {rest : List Char} (start : isNameStart first = true)
      (part : ∀ c ∈ rest, isNamePart c = true) :
      NameText (first :: rest) (String.ofList (first :: rest))

/-- The spellings of a number without its sign. -/
inductive MagnitudeText : List Char → Nat → Prop where
  | hexadecimal {digits : List Char} (some : digits ≠ [])
      (all : ∀ c ∈ digits, isHexDigit c = true) :
      MagnitudeText ('0' :: 'x' :: digits) (digitsValue 16 digits)
  | decimal {digits : List Char} (some : digits ≠ []) (all : ∀ c ∈ digits, c.isDigit = true) :
      MagnitudeText digits (digitsValue 10 digits)

/-- The spellings of a number. -/
inductive NumberText : List Char → Int → Prop where
  | unsigned {text : List Char} {n : Nat} (magnitude : MagnitudeText text n)
      (fits : n ≤ greatestMagnitude) : NumberText text n
  | negative {text : List Char} {n : Nat} (magnitude : MagnitudeText text n)
      (fits : n ≤ greatestMagnitude) : NumberText ('-' :: text) (-n)

/-- The spellings of what stands as an argument. -/
inductive ValueText : List Char → Value → Prop where
  | number {text : List Char} {value : Int} (spelled : NumberText text value) :
      ValueText text (.number value)
  | label {text : List Char} {name : String} (spelled : NameText text name) :
      ValueText text (.label name)

/-- An argument with the blanks around it. -/
inductive ArgumentText (offset : Nat) : List Char → Argument → Prop where
  | intro {left text right : List Char} {value : Value} (before : Blanks left)
      (spelled : ValueText text value) (after : Blanks right) :
      ArgumentText offset (left ++ (text ++ right))
        ⟨value, offset + utf8Length left, offset + utf8Length left + utf8Length text⟩

/-- Further arguments, each behind a comma. -/
inductive FurtherText : Nat → List Char → List Argument → Prop where
  | nil {offset : Nat} : FurtherText offset [] []
  | cons {offset : Nat} {text rest : List Char} {argument : Argument} {arguments : List Argument}
      (head : ArgumentText (offset + 1) text argument)
      (tail : FurtherText (offset + 1 + utf8Length text) rest arguments) :
      FurtherText offset (',' :: (text ++ rest)) (argument :: arguments)

/-- Nothing, or a comma and blanks. -/
inductive TrailingComma : List Char → Prop where
  | nil : TrailingComma []
  | comma {blanks : List Char} (after : Blanks blanks) : TrailingComma (',' :: blanks)

/-- What stands between the parentheses of a call. -/
inductive ArgumentsText (offset : Nat) : List Char → List Argument → Prop where
  | none {blanks : List Char} (only : Blanks blanks) : ArgumentsText offset blanks []
  | some {text more comma : List Char} {argument : Argument} {arguments : List Argument}
      (head : ArgumentText offset text argument)
      (tail : FurtherText (offset + utf8Length text) more arguments)
      (trailing : TrailingComma comma) :
      ArgumentsText offset (text ++ (more ++ comma)) (argument :: arguments)

/-- Nothing, or a semicolon with blanks around it. -/
inductive Semicolon : List Char → Prop where
  | nil : Semicolon []
  | semicolon {left right : List Char} (before : Blanks left) (after : Blanks right) :
      Semicolon (left ++ ';' :: right)

/-- A definition of a label, or a call. -/
inductive StatementText (offset : Nat) : List Char → Statement → Prop where
  | label {text : List Char} {name : String} (spelled : NameText text name) :
      StatementText offset (text ++ [':'])
        (.label name ⟨offset, offset + utf8Length (text ++ [':'])⟩)
  | call {text blanks inner semicolon : List Char} {name : String} {arguments : List Argument}
      (spelled : NameText text name) (between : Blanks blanks)
      (given : ArgumentsText (offset + utf8Length (text ++ (blanks ++ ['(']))) inner arguments)
      (closed : Semicolon semicolon) :
      StatementText offset (text ++ (blanks ++ '(' :: (inner ++ ')' :: semicolon)))
        (.call ⟨name, arguments, offset,
          offset + utf8Length (text ++ (blanks ++ '(' :: (inner ++ ')' :: semicolon)))⟩)

/-- A layout of statements. -/
inductive ScriptText : Nat → List Char → List Statement → Prop where
  | closing {offset : Nat} {text : List Char} (closing : Closing text) : ScriptText offset text []
  | statement {offset : Nat} {gap text rest : List Char} {statement : Statement}
      {script : List Statement} (before : Gap gap)
      (spelled : StatementText (offset + utf8Length gap) text statement)
      (after : ScriptText (offset + utf8Length gap + utf8Length text) rest script) :
      ScriptText offset (gap ++ (text ++ rest)) (statement :: script)

/-! ## Where a call ends -/

/-- What a call takes in behind its parenthesis, of the text behind it: a semicolon with all blanks
around it, or nothing where no semicolon follows. -/
inductive SemicolonBefore (rest : List Char) : List Char → Prop where
  | nil (other : (rest.dropWhile Text.isBlank).head? ≠ some ';') : SemicolonBefore rest []
  | semicolon {left right : List Char} (before : Blanks left) (after : Blanks right)
      (stops : Stops Text.isBlank rest) : SemicolonBefore rest (left ++ ';' :: right)

/-- A definition of a label, or a call that goes as far as it can. -/
inductive StatementBefore (rest : List Char) (offset : Nat) : List Char → Statement → Prop where
  | label {text : List Char} {name : String} (spelled : NameText text name) :
      StatementBefore rest offset (text ++ [':'])
        (.label name ⟨offset, offset + utf8Length (text ++ [':'])⟩)
  | call {text blanks inner semicolon : List Char} {name : String} {arguments : List Argument}
      (spelled : NameText text name) (between : Blanks blanks)
      (given : ArgumentsText (offset + utf8Length (text ++ (blanks ++ ['(']))) inner arguments)
      (closed : SemicolonBefore rest semicolon) :
      StatementBefore rest offset (text ++ (blanks ++ '(' :: (inner ++ ')' :: semicolon)))
        (.call ⟨name, arguments, offset,
          offset + utf8Length (text ++ (blanks ++ '(' :: (inner ++ ')' :: semicolon)))⟩)

/-- A layout of statements in which every call goes as far as it can. -/
inductive ScriptReading : Nat → List Char → List Statement → Prop where
  | closing {offset : Nat} {text : List Char} (closing : Closing text) :
      ScriptReading offset text []
  | statement {offset : Nat} {gap text rest : List Char} {statement : Statement}
      {script : List Statement} (before : Gap gap)
      (spelled : StatementBefore rest (offset + utf8Length gap) text statement)
      (after : ScriptReading (offset + utf8Length gap + utf8Length text) rest script) :
      ScriptReading offset (gap ++ (text ++ rest)) (statement :: script)

theorem SemicolonBefore.semicolonText {rest text : List Char} (closed : SemicolonBefore rest text) :
    Semicolon text := by
  cases closed with
  | nil => exact .nil
  | semicolon before after => exact .semicolon before after

theorem StatementBefore.statementText {rest text : List Char} {offset : Nat}
    {statement : Statement} (spelled : StatementBefore rest offset text statement) :
    StatementText offset text statement := by
  cases spelled with
  | label spelled => exact .label spelled
  | call spelled between given closed => exact .call spelled between given closed.semicolonText

theorem ScriptReading.scriptText {offset : Nat} {text : List Char} {script : List Statement}
    (reading : ScriptReading offset text script) : ScriptText offset text script := by
  induction reading with
  | closing closing => exact .closing closing
  | statement before spelled _ ih => exact .statement before spelled.statementText ih

/-! ## Spans aside -/

def Argument.bare (argument : Argument) : Argument :=
  { argument with span := default }

def Call.bare (call : Call) : Call :=
  ⟨call.name, call.arguments.map Argument.bare, default⟩

/-- The statement with every span forgotten. -/
def Statement.bare : Statement → Statement
  | .label name _ => .label name default
  | .call made => .call made.bare

@[simp] theorem Statement.bare_label (name : String) (span : Span) :
    (Statement.label name span).bare = .label name default :=
  rfl

@[simp] theorem Statement.bare_call (made : Call) :
    (Statement.call made).bare = .call made.bare :=
  rfl

/-- Whether the source text is a layout of the script, wherever its parts may stand. -/
def IsLayout (source : String) (script : List Statement) : Prop :=
  ∃ placed, ScriptText 0 source.toList placed ∧
    placed.map Statement.bare = script.map Statement.bare

/-! ## Blanks can be taken in -/

@[simp] theorem blanks_nil : Blanks [] := by
  simp [Blanks]

@[simp] theorem blanks_cons {c : Char} {text : List Char} :
    Blanks (c :: text) ↔ Text.isBlank c = true ∧ Blanks text :=
  List.forall_mem_cons

theorem Blanks.append {first second : List Char} (left : Blanks first) (right : Blanks second) :
    Blanks (first ++ second) :=
  List.forall_mem_append.mpr ⟨left, right⟩

theorem ArgumentText.append_left {offset : Nat} {blanks text : List Char} {argument : Argument}
    (before : Blanks blanks) (spelled : ArgumentText (offset + utf8Length blanks) text argument) :
    ArgumentText offset (blanks ++ text) argument := by
  obtain ⟨before', value, after⟩ := spelled
  rw [← List.append_assoc, Nat.add_assoc offset, ← utf8Length_append]
  exact .intro (before.append before') value after

theorem ArgumentText.append_right {offset : Nat} {blanks text : List Char} {argument : Argument}
    (spelled : ArgumentText offset text argument) (after : Blanks blanks) :
    ArgumentText offset (text ++ blanks) argument := by
  obtain ⟨before, value, after'⟩ := spelled
  simpa using ArgumentText.intro before value (after'.append after)

/-- Blanks behind the last of several arguments belong to it. -/
theorem FurtherText.append_right {offset : Nat} {blanks text : List Char} {argument : Argument}
    {arguments : List Argument} (spelled : FurtherText offset text (argument :: arguments))
    (after : Blanks blanks) : FurtherText offset (text ++ blanks) (argument :: arguments) := by
  induction arguments generalizing offset text argument with
  | nil =>
    obtain _ | ⟨head, ⟨⟩⟩ := spelled
    have head := head.append_right after
    simpa using FurtherText.cons head .nil
  | cons next arguments ih =>
    obtain _ | ⟨head, tail⟩ := spelled
    simpa using FurtherText.cons head (ih tail)

/-- Blanks around several arguments belong to the first of them and the last, or stand behind the
last comma. -/
theorem ArgumentsText.padded {offset : Nat} {left head more comma right : List Char}
    {argument : Argument} {arguments : List Argument} (before : Blanks left)
    (leading : ArgumentText (offset + utf8Length left) head argument)
    (tail : FurtherText (offset + utf8Length left + utf8Length head) more arguments)
    (trailing : comma = [','] ∨ comma = []) (after : Blanks right) :
    ArgumentsText offset (left ++ ((head ++ (more ++ comma)) ++ right)) (argument :: arguments) := by
  have leading := leading.append_left before
  rw [Nat.add_assoc offset, ← utf8Length_append] at tail
  obtain rfl | rfl := trailing
  · simpa using ArgumentsText.some leading tail (.comma after)
  · cases arguments with
    | nil =>
      obtain ⟨⟩ := tail
      simpa using ArgumentsText.some (leading.append_right after) .nil .nil
    | cons next arguments =>
      simpa using ArgumentsText.some leading (tail.append_right after) .nil

/-! ## Gaps can be joined -/

theorem Blanks.gap {text : List Char} (blanks : Blanks text) : Gap text := by
  induction text with
  | nil => exact .nil
  | cons c text ih =>
    obtain ⟨head, tail⟩ := blanks_cons.mp blanks
    exact .blank head (ih tail)

theorem Gap.append {first second : List Char} (left : Gap first) (right : Gap second) :
    Gap (first ++ second) := by
  induction left with
  | nil => exact right
  | blank isBlank _ ih => exact .blank isBlank ih
  | comment line _ ih => simpa using Gap.comment line ih

theorem Gap.append_closing {first second : List Char} (left : Gap first) (right : Closing second) :
    Closing (first ++ second) := by
  cases right with
  | gap right => exact .gap (left.append right)
  | comment right line =>
    rw [← List.append_assoc]
    exact .comment (left.append right) line

theorem ScriptText.append_gap {offset : Nat} {gap text : List Char} {script : List Statement}
    (before : Gap gap) (spelled : ScriptText (offset + utf8Length gap) text script) :
    ScriptText offset (gap ++ text) script := by
  cases spelled with
  | closing closing => exact .closing (before.append_closing closing)
  | statement before' spelled after =>
    rw [← List.append_assoc]
    rw [Nat.add_assoc offset, ← utf8Length_append] at spelled after
    exact .statement (before.append before') spelled after

/-! ## First characters -/

theorem NameText.exists_cons {text : List Char} {name : String} (spelled : NameText text name) :
    ∃ c more, text = c :: more ∧ isNameStart c = true := by
  obtain ⟨start, part⟩ := spelled
  exact ⟨_, _, rfl, start⟩

theorem StatementText.exists_cons {offset : Nat} {text : List Char} {statement : Statement}
    (spelled : StatementText offset text statement) :
    ∃ c more, text = c :: more ∧ isNameStart c = true := by
  cases spelled with
  | label spelled =>
    obtain ⟨c, more, rfl, start⟩ := spelled.exists_cons
    exact ⟨c, _, rfl, start⟩
  | call spelled =>
    obtain ⟨c, more, rfl, start⟩ := spelled.exists_cons
    exact ⟨c, _, rfl, start⟩

end Sequencer.Script
