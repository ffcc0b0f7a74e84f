import Sequencer.Proofs.Script.Soundness

/-!
# Every spelling of a statement is read

The readers of names, numbers, arguments and calls take every text that the grammar
has for them, provided that what comes next cannot be taken for a part of it:

* a name or a number is followed by nothing a name may go on with,
* an argument by a comma or a parenthesis,
* a semicolon by all blanks there are.

Most choices of the parser are decided by the next character.  The two that are
not are the label that is tried before a call, and the comma that is tried for one
more argument before it is taken for the last character of the list.
-/

namespace Sequencer.Script

/-! ## Classes of characters -/

theorem isNamePart_iff {c : Char} : isNamePart c = true ↔
    (((65 ≤ c.toNat ∧ c.toNat ≤ 90) ∨ (97 ≤ c.toNat ∧ c.toNat ≤ 122)) ∨
      (48 ≤ c.toNat ∧ c.toNat ≤ 57)) ∨ c = '_' := by
  unfold isNamePart Char.isAlphanum Char.isAlpha Char.isUpper Char.isLower Char.isDigit
  simp only [Bool.or_eq_true, Bool.and_eq_true, decide_eq_true_eq, beq_iff_eq,
    UInt32.le_iff_toNat_le]
  exact Iff.rfl

theorem isNamePart_of_isBlank {c : Char} (blank : Text.isBlank c = true) :
    isNamePart c = false := by
  rw [Bool.eq_false_iff, Ne, isNamePart_iff]
  simp only [Text.isBlank, Bool.or_eq_true, Bool.and_eq_true, decide_eq_true_eq, beq_iff_eq] at blank
  intro part
  obtain part | rfl := part
  · omega
  · simp at blank

theorem isBlank_of_isNamePart {c : Char} (part : isNamePart c = true) :
    Text.isBlank c = false := by
  rw [Bool.eq_false_iff]
  intro blank
  rw [isNamePart_of_isBlank blank] at part
  cases part

theorem isNamePart_of_isHexDigit {c : Char} (digit : isHexDigit c = true) :
    isNamePart c = true := by
  simp only [isHexDigit, Char.isDigit, Bool.or_eq_true, Bool.and_eq_true, decide_eq_true_eq,
    Char.le_def, UInt32.le_iff_toNat_le] at digit
  change ((48 ≤ c.toNat ∧ c.toNat ≤ 57) ∨ (97 ≤ c.toNat ∧ c.toNat ≤ 102)) ∨
    (65 ≤ c.toNat ∧ c.toNat ≤ 70) at digit
  rw [isNamePart_iff]
  omega

theorem isNamePart_of_isDigit {c : Char} (digit : c.isDigit = true) : isNamePart c = true := by
  simp [isNamePart, Char.isAlphanum, digit]

theorem isNamePart_of_isNameStart {c : Char} (start : isNameStart c = true) :
    isNamePart c = true := by
  simp only [isNameStart, isNamePart, Char.isAlphanum, Bool.or_eq_true] at start ⊢
  obtain letter | underscore := start
  · exact .inl (.inl letter)
  · exact .inr underscore

theorem NameText.isNamePart {text : List Char} {name : String} (spelled : NameText text name) :
    ∀ c ∈ text, isNamePart c = true := by
  obtain ⟨start, part⟩ := spelled
  exact List.forall_mem_cons.mpr ⟨isNamePart_of_isNameStart start, part⟩

theorem isDigit_of_isNameStart {c : Char} (start : isNameStart c = true) : c.isDigit = false := by
  rw [Bool.eq_false_iff]
  intro digit
  unfold isNameStart Char.isAlpha Char.isUpper Char.isLower at start
  unfold Char.isDigit at digit
  simp only [Bool.or_eq_true, Bool.and_eq_true, decide_eq_true_eq, beq_iff_eq,
    UInt32.le_iff_toNat_le] at start digit
  change ((65 ≤ c.toNat ∧ c.toNat ≤ 90) ∨ (97 ≤ c.toNat ∧ c.toNat ≤ 122)) ∨ c = '_' at start
  change 48 ≤ c.toNat ∧ c.toNat ≤ 57 at digit
  obtain start | rfl := start
  · omega
  · simp at digit

/-! ## What comes next -/

theorem Stops.weaken {ok ok' : Char → Bool} {text : List Char} (stops : Stops ok text)
    (within : ∀ c, ok' c = true → ok c = true) : Stops ok' text := by
  intro c head
  rw [Bool.eq_false_iff]
  intro inClass
  have outside := stops c head
  rw [within c inClass] at outside
  cases outside

/-- Blanks stop whatever has no blank in it. -/
theorem Stops.blanks {ok : Char → Bool} {blanks rest : List Char} (areBlanks : Blanks blanks)
    (stops : Stops ok rest) (visible : ∀ c, Text.isBlank c = true → ok c = false) :
    Stops ok (blanks ++ rest) := by
  cases blanks with
  | nil => exact stops
  | cons c blanks => exact stops_cons.mpr (visible c (areBlanks c List.mem_cons_self))

theorem Blanks.ne_head {blanks rest : List Char} (areBlanks : Blanks blanks) {c : Char}
    (visible : Text.isBlank c = false) (other : rest.head? ≠ some c) :
    (blanks ++ rest).head? ≠ some c := by
  cases blanks with
  | nil => exact other
  | cons d blanks => exact head_cons_ne (areBlanks d List.mem_cons_self) visible _

theorem exists_blanks_append (text : List Char) :
    ∃ blanks more, text = blanks ++ more ∧ Blanks blanks ∧ Stops Text.isBlank more :=
  ⟨_, _, List.takeWhile_append_dropWhile.symm, fun _ => List.mem_takeWhile_imp,
    stops_dropWhile Text.isBlank text⟩

/-- The blanks behind a statement belong to its semicolon, if there is one. -/
theorem Semicolon.exists_before {text blanks rest : List Char} (closed : Semicolon text)
    (areBlanks : Blanks blanks) (stops : Stops Text.isBlank rest) (other : rest.head? ≠ some ';') :
    ∃ front back, text ++ blanks = front ++ back ∧ Blanks back ∧
      SemicolonBefore (back ++ rest) front := by
  cases closed with
  | nil =>
    refine ⟨[], blanks, rfl, areBlanks, .nil ?_⟩
    rwa [dropWhile_append_of_stops areBlanks stops]
  | @semicolon left right before after =>
    exact ⟨left ++ ';' :: (right ++ blanks), [], by simp, blanks_nil,
      .semicolon before (after.append areBlanks) stops⟩

theorem StatementText.exists_before {offset : Nat} {text blanks rest : List Char}
    {found : Statement} (spelled : StatementText offset text found) (areBlanks : Blanks blanks)
    (stops : Stops Text.isBlank rest) (other : rest.head? ≠ some ';') :
    ∃ front back found', text ++ blanks = front ++ back ∧ Blanks back ∧
      found'.bare = found.bare ∧ StatementBefore (back ++ rest) offset front found' := by
  cases spelled with
  | @label text name spelled =>
    exact ⟨text ++ [':'], blanks, _, rfl, areBlanks, rfl, .label spelled⟩
  | @call text between inner semicolon name given spelled areBetween arguments closed =>
    obtain ⟨front, back, split, areBack, closed⟩ := closed.exists_before areBlanks stops other
    refine ⟨text ++ (between ++ '(' :: (inner ++ ')' :: front)), back, _, by simp [split], areBack,
      ?_, .call spelled areBetween arguments closed⟩
    rfl

theorem MagnitudeText.exists_cons {text : List Char} {n : Nat} (spelled : MagnitudeText text n) :
    ∃ c more, text = c :: more ∧ c.isDigit = true := by
  cases spelled with
  | hexadecimal some all => exact ⟨_, _, rfl, by decide⟩
  | decimal some all =>
    obtain ⟨c, more, rfl⟩ := List.exists_cons_of_ne_nil some
    exact ⟨c, more, rfl, all c List.mem_cons_self⟩

theorem ValueText.exists_cons {text : List Char} {value : Value} (spelled : ValueText text value) :
    ∃ c more, text = c :: more ∧ Text.isBlank c = false := by
  cases spelled with
  | number spelled =>
    cases spelled with
    | unsigned magnitude fits =>
      obtain ⟨c, more, rfl, digit⟩ := magnitude.exists_cons
      exact ⟨c, more, rfl, isBlank_of_isNamePart (isNamePart_of_isDigit digit)⟩
    | negative magnitude fits => exact ⟨_, _, rfl, by decide⟩
  | label spelled =>
    obtain ⟨c, more, rfl, start⟩ := spelled.exists_cons
    exact ⟨c, more, rfl, isBlank_of_isNamePart (isNamePart_of_isNameStart start)⟩

/-- The blanks before an argument can be skipped ahead of it. -/
theorem ArgumentText.split {offset : Nat} {text : List Char} {argument : Argument}
    (spelled : ArgumentText offset text argument) :
    ∃ left more, text = left ++ more ∧ Blanks left ∧ (∀ rest, Stops Text.isBlank (more ++ rest)) ∧
      ArgumentText (offset + utf8Length left) more argument := by
  cases spelled with
  | @intro left text right value before spelled after =>
    refine ⟨left, text ++ right, rfl, before, ?_, ?_⟩
    · intro rest
      obtain ⟨c, more, rfl, notBlank⟩ := spelled.exists_cons
      exact stops_cons.mpr notBlank
    · exact ArgumentText.intro blanks_nil spelled after

namespace Parser

open Reader

variable {offset : Nat} {text rest : List Char}

theorem takes_skipBlanks (offset : Nat) (blanks : Blanks text) (stops : Stops Text.isBlank rest) :
    skipBlanks.Takes offset text rest () := by
  simp only [Takes, skipBlanks, skipWhile_append offset blanks stops]

theorem takes_whitespace (offset : Nat) (blanks : Blanks text) (stops : Stops Text.isBlank rest) :
    whitespace.Takes offset text rest () := by
  simp only [Takes, whitespace, skipWhile_append offset blanks stops]
  split <;> rfl

theorem takes_located {α : Type} {reader : Reader α} {value : α}
    (takes : reader.Takes offset text rest value) :
    (located reader).Takes offset text rest (value, ⟨offset, offset + utf8Length text⟩) := by
  refine result_bind_eq_some.mpr ⟨offset, _, rfl, ?_⟩
  refine result_bind_eq_some.mpr ⟨value, _, takes, ?_⟩
  exact result_bind_eq_some.mpr ⟨offset + utf8Length text, _, rfl, rfl⟩

theorem fails_located {α : Type} {reader : Reader α} (fails : reader.Fails offset text) :
    (located reader).Fails offset text := by
  have start : position.Takes offset [] text offset := rfl
  exact start.bind_fails (fails.bind _)

/-! ## Names and numbers -/

theorem takes_name (offset : Nat) {found : String} (spelled : NameText text found)
    (stops : Stops isNamePart rest) : name.Takes offset text rest found := by
  cases spelled with
  | @intro first more start part =>
    have run := takes_takeWhile (offset + utf8Length [first]) part stops
    exact Takes.bind (takes_satisfy start offset _)
      (run.bind_pure fun more => String.ofList (first :: more))

theorem fails_name (offset : Nat) (stops : Stops isNameStart text) : name.Fails offset text :=
  (fails_satisfy offset stops).bind _

theorem takes_hexadecimal (offset : Nat) (some : text ≠ []) (all : ∀ c ∈ text, isHexDigit c = true)
    (stops : Stops isHexDigit rest) :
    hexadecimal.Takes offset ('0' :: 'x' :: text) rest (digitsValue 16 text) := by
  have digits := takes_takeWhile1 (offset + utf8Length ['0'] + utf8Length ['x']) some all stops
  exact Takes.bind (takes_expect '0' offset _) (Takes.bind (takes_expect 'x' _ _)
    (digits.bind_pure (digitsValue 16)))

theorem fails_hexadecimal (offset : Nat) (other : ∀ more, text ≠ '0' :: 'x' :: more) :
    hexadecimal.Fails offset text := by
  by_cases zero : text.head? = some '0'
  · obtain ⟨more, rfl⟩ := List.head?_eq_some_iff.mp zero
    have noMark : more.head? ≠ some 'x' := by
      intro mark
      obtain ⟨digits, rfl⟩ := List.head?_eq_some_iff.mp mark
      exact other digits rfl
    exact (takes_expect '0' offset more).bind_fails ((fails_expect _ noMark).bind _)
  · exact (fails_expect offset zero).bind _

theorem takes_decimal (offset : Nat) (some : text ≠ []) (all : ∀ c ∈ text, c.isDigit = true)
    (stops : Stops Char.isDigit rest) : decimal.Takes offset text rest (digitsValue 10 text) :=
  (takes_takeWhile1 offset some all stops).bind_pure (digitsValue 10)

theorem fails_decimal (offset : Nat) (stops : Stops Char.isDigit text) :
    decimal.Fails offset text :=
  (fails_takeWhile1 offset stops).bind _

theorem takes_magnitude (offset : Nat) {n : Nat} (spelled : MagnitudeText text n)
    (stops : Stops isNamePart rest) : (hexadecimal <|> decimal).Takes offset text rest n := by
  cases spelled with
  | hexadecimal some all =>
    exact (takes_hexadecimal offset some all
      (stops.weaken fun _ => isNamePart_of_isHexDigit)).orElse decimal
  | decimal some all =>
    -- digits are mistaken for the mark only if an `x` follows the first of them
    have notHexadecimal : ∀ more, text ++ rest ≠ '0' :: 'x' :: more := by
      intro more same
      obtain ⟨zero, tail, rfl⟩ := List.exists_cons_of_ne_nil some
      obtain ⟨-, same⟩ := List.cons.inj same
      cases tail with
      | nil =>
        have same : rest = 'x' :: more := same
        rw [same] at stops
        exact absurd (stops_cons.mp stops) (by decide)
      | cons c tail =>
        obtain ⟨rfl, -⟩ := List.cons.inj same
        exact absurd (all 'x' (by simp)) (by decide)
    exact (fails_hexadecimal offset notHexadecimal).orElse_takes
      (takes_decimal offset some all (stops.weaken fun _ => isNamePart_of_isDigit))

theorem takes_number (offset : Nat) {n : Int} (spelled : NumberText text n)
    (stops : Stops isNamePart rest) : number.Takes offset text rest n := by
  cases spelled with
  | @unsigned _ n magnitude fits =>
    obtain ⟨c, more, rfl, digit⟩ := magnitude.exists_cons
    have noSign : (c :: more ++ rest).head? ≠ some '-' := head_cons_ne digit (by decide) _
    apply Takes.bind_nil (fails_expect offset noSign).optional
    apply (takes_magnitude offset magnitude stops).bind_done
    simp only [if_pos fits]
    exact takes_pure _ _ rest
  | @negative digits n magnitude fits =>
    apply Takes.bind (takes_expect '-' offset _).optional
    apply (takes_magnitude _ magnitude stops).bind_done
    simp only [if_pos fits]
    exact takes_pure _ _ rest

theorem fails_number (offset : Nat) (noSign : text.head? ≠ some '-')
    (stops : Stops Char.isDigit text) : number.Fails offset text := by
  have notHexadecimal : ∀ more, text ≠ '0' :: 'x' :: more := by
    intro more same
    rw [same] at stops
    exact absurd (stops_cons.mp stops) (by decide)
  have noMagnitude := (fails_hexadecimal offset notHexadecimal).orElse (fails_decimal offset stops)
  exact Takes.bind_fails (fails_expect offset noSign).optional (noMagnitude.bind _)

/-! ## Arguments -/

theorem takes_value (offset : Nat) {found : Value} (spelled : ValueText text found)
    (stops : Stops isNamePart rest) : value.Takes offset text rest found := by
  cases spelled with
  | number spelled => exact ((takes_number offset spelled stops).bind_pure Value.number).orElse _
  | label spelled =>
    -- a number is tried first, and the first character of a name starts none
    have taken := takes_name offset spelled stops
    obtain ⟨c, more, rfl, start⟩ := spelled.exists_cons
    have noSign : (c :: more ++ rest).head? ≠ some '-' := head_cons_ne start (by decide) _
    have noDigit : Stops Char.isDigit (c :: more ++ rest) :=
      stops_cons.mpr (isDigit_of_isNameStart start)
    exact ((fails_number offset noSign noDigit).bind _).orElse_takes (taken.bind_pure Value.label)

theorem fails_value_close (offset : Nat) (rest : List Char) : value.Fails offset (')' :: rest) := by
  have noNumber : number.Fails offset (')' :: rest) :=
    fails_number offset (by simp) (stops_cons.mpr (by decide))
  have noName : name.Fails offset (')' :: rest) :=
    fails_name offset (stops_cons.mpr (by decide))
  exact (noNumber.bind _).orElse (noName.bind _)

/-- What may come behind an argument and the blanks around it. -/
def IsDelimited (text : List Char) : Prop :=
  ∃ c more, text = c :: more ∧ (c = ',' ∨ c = ')')

theorem IsDelimited.stops_isBlank (delimited : IsDelimited text) : Stops Text.isBlank text := by
  obtain ⟨c, more, rfl, rfl | rfl⟩ := delimited <;> exact stops_cons.mpr (by decide)

theorem IsDelimited.stops_isNamePart (delimited : IsDelimited text) : Stops isNamePart text := by
  obtain ⟨c, more, rfl, rfl | rfl⟩ := delimited <;> exact stops_cons.mpr (by decide)

theorem takes_argument_of_stops {found : Argument} (spelled : ArgumentText offset text found)
    (visible : Stops Text.isBlank rest) (ended : Stops isNamePart rest) :
    argument.Takes offset text rest found := by
  cases spelled with
  | @intro left text right value before spelled after =>
    have started : Stops Text.isBlank (text ++ right ++ rest) := by
      obtain ⟨c, more, rfl, notBlank⟩ := spelled.exists_cons
      exact stops_cons.mpr notBlank
    have ended : Stops isNamePart (right ++ rest) :=
      ended.blanks after fun _ => isNamePart_of_isBlank
    apply Takes.bind (takes_skipBlanks offset before started)
    apply Takes.bind (takes_located (takes_value _ spelled ended))
    exact (takes_skipBlanks _ after visible).bind_pure fun _ => Argument.mk value _

theorem takes_argument {found : Argument} (spelled : ArgumentText offset text found)
    (delimited : IsDelimited rest) : argument.Takes offset text rest found :=
  takes_argument_of_stops spelled delimited.stops_isBlank delimited.stops_isNamePart

theorem fails_argument_close (offset : Nat) (blanks : Blanks text) (rest : List Char) :
    argument.Fails offset (text ++ ')' :: rest) := by
  have closing : Stops Text.isBlank (')' :: rest) := stops_cons.mpr (by decide)
  exact (takes_skipBlanks offset blanks closing).bind_fails ((fails_located (fails_value_close _ rest)).bind _)

theorem takes_trailingComma (offset : Nat) (trailing : TrailingComma text) (rest : List Char) :
    ∃ mark blanks found, text = mark ++ blanks ∧ Blanks blanks ∧
      (optional (expect ',')).Takes offset mark (blanks ++ ')' :: rest) found := by
  cases trailing with
  | nil =>
    refine ⟨[], [], none, rfl, blanks_nil, ?_⟩
    exact (fails_expect offset (by simp)).optional
  | @comma blanks after =>
    exact ⟨[','], blanks, some (), rfl, after, (takes_expect ',' offset _).optional⟩

theorem fails_nextArgument (offset : Nat) (trailing : TrailingComma text) (rest : List Char) :
    nextArgument.Fails offset (text ++ ')' :: rest) := by
  cases trailing with
  | nil => exact (fails_expect offset (by simp)).bind _
  | comma after => exact (takes_expect ',' offset _).bind_fails (fails_argument_close _ after rest)

theorem isDelimited_trailing {comma : List Char} (trailing : TrailingComma comma)
    (rest : List Char) : IsDelimited (comma ++ ')' :: rest) := by
  cases trailing with
  | nil => exact ⟨_, _, rfl, .inr rfl⟩
  | comma => exact ⟨_, _, rfl, .inl rfl⟩

theorem isDelimited_further {found : List Argument} (spelled : FurtherText offset text found)
    (delimited : IsDelimited rest) : IsDelimited (text ++ rest) := by
  cases spelled with
  | cons => exact ⟨_, _, rfl, .inl rfl⟩
  | nil => exact delimited

/-- Arguments behind commas are read up to where no further one can be read. -/
theorem takes_many_nextArgument {found : List Argument} (spelled : FurtherText offset text found)
    (delimited : IsDelimited rest) (last : ∀ offset, nextArgument.Fails offset rest) :
    (many nextArgument consumes_nextArgument).Takes offset text rest found := by
  induction spelled with
  | nil => exact (last _).many _
  | @cons offset text more argument arguments head tail ih =>
    have taken : nextArgument.Takes offset (',' :: text) (more ++ rest) argument :=
      Takes.bind (takes_expect ',' offset _) (takes_argument head (isDelimited_further tail delimited))
    have width : offset + 1 + utf8Length text = offset + utf8Length (',' :: text) := by
      rw [utf8Length_cons, Nat.add_assoc]
      rfl
    rw [width] at ih
    exact Takes.many_cons taken ih

theorem takes_arguments {first : Argument} {further : List Argument} {more comma : List Char}
    (head : ArgumentText offset text first)
    (tail : FurtherText (offset + utf8Length text) more further)
    (trailing : TrailingComma comma) (rest : List Char) :
    ∃ mark blanks, comma = mark ++ blanks ∧ Blanks blanks ∧
      arguments.Takes offset (text ++ (more ++ mark)) (blanks ++ ')' :: rest)
        (first :: further) := by
  obtain ⟨mark, blanks, found, rfl, areBlanks, marked⟩ :=
    takes_trailingComma (offset + utf8Length text + utf8Length more) trailing rest
  refine ⟨mark, blanks, rfl, areBlanks, ?_⟩
  have closing := isDelimited_trailing trailing rest
  -- one more argument is tried behind a last comma, and given up at the parenthesis
  have repeated := takes_many_nextArgument tail closing fun offset =>
    fails_nextArgument offset trailing rest
  rw [List.append_assoc] at closing repeated
  have delimited := isDelimited_further tail closing
  rw [← List.append_assoc] at delimited
  apply Takes.bind (takes_argument head delimited).optional
  exact Takes.bind repeated (marked.bind_pure fun _ => first :: further)

theorem takes_arguments_none (offset : Nat) (rest : List Char) :
    arguments.Takes offset [] (')' :: rest) [] := by
  have noArgument : argument.Fails offset ([] ++ ')' :: rest) :=
    fails_argument_close offset blanks_nil rest
  exact noArgument.optional.bind_pure fun _ => []

theorem takes_argumentList {found : List Argument} (spelled : ArgumentsText (offset + 1) text found)
    (rest : List Char) : argumentList.Takes offset ('(' :: (text ++ [')'])) rest found := by
  have closing : Stops Text.isBlank (')' :: rest) := stops_cons.mpr (by decide)
  show argumentList.Takes offset (['('] ++ (text ++ [')'])) rest found
  apply Takes.bind (takes_expect '(' offset _)
  cases spelled with
  | none only =>
    apply Takes.bind (takes_skipBlanks _ only closing)
    apply Takes.bind_nil (takes_arguments_none _ rest)
    apply Takes.bind_nil (takes_skipBlanks _ blanks_nil closing)
    exact (takes_expect ')' _ rest).bind_pure fun _ => []
  | @some text more comma first further head tail trailing =>
    -- the blanks in front of the first argument are skipped ahead of the list
    obtain ⟨left, visible, rfl, before, stops, head⟩ := head.split
    rw [utf8Length_append, ← Nat.add_assoc] at tail
    obtain ⟨mark, blanks, rfl, after, taken⟩ := takes_arguments head tail trailing rest
    have layout : left ++ visible ++ (more ++ (mark ++ blanks)) ++ [')'] =
        left ++ (visible ++ (more ++ mark) ++ (blanks ++ [')'])) := by simp
    rw [layout]
    have taken : arguments.Takes (offset + utf8Length ['('] + utf8Length left)
        (visible ++ (more ++ mark)) (blanks ++ [')'] ++ rest) (first :: further) := by
      rw [List.append_assoc]
      exact taken
    refine Takes.bind (takes_skipBlanks _ before ?_) (Takes.bind taken ?_)
    · simpa using stops (more ++ (mark ++ (blanks ++ ')' :: rest)))
    · apply Takes.bind (takes_skipBlanks _ after closing)
      exact (takes_expect ')' _ rest).bind_pure fun _ => first :: further

/-! ## Statements -/

theorem takes_semicolon (closed : SemicolonBefore rest text) :
    ∃ found, ∀ offset, (optional semicolon).Takes offset text rest found := by
  cases closed with
  | nil other =>
    obtain ⟨blanks, more, rfl, areBlanks, stops⟩ := exists_blanks_append rest
    rw [dropWhile_append_of_stops areBlanks stops] at other
    refine ⟨none, fun offset => Fails.optional ?_⟩
    exact (takes_skipBlanks offset areBlanks stops).bind_fails ((fails_expect _ other).bind _)
  | @semicolon left right before after stops =>
    refine ⟨some (), fun offset => Takes.optional ?_⟩
    have marked : Stops Text.isBlank (';' :: right ++ rest) := stops_cons.mpr (by decide)
    have last := takes_skipBlanks (offset + utf8Length left + utf8Length [';']) after stops
    exact Takes.bind (takes_skipBlanks offset before marked) (Takes.bind (takes_expect ';' _ _) last)

theorem takes_label (offset : Nat) {found : String} (spelled : NameText text found)
    (rest : List Char) :
    label.Takes offset (text ++ [':']) rest
      (.label found ⟨offset, offset + utf8Length (text ++ [':'])⟩) := by
  have ended : Stops isNamePart ([':'] ++ rest) := stops_cons.mpr (by decide)
  have taken : (do let found ← name; expect ':'; return found : Reader String).Takes offset
      (text ++ [':']) rest found :=
    Takes.bind (takes_name offset spelled ended) ((takes_expect ':' _ rest).bind_pure fun _ => found)
  exact (takes_located taken).bind_done (takes_pure _ _ rest)

theorem takes_call {blanks inner tail : List Char} {found : String} {given : List Argument}
    {ended : Option Unit} (spelled : NameText text found) (between : Blanks blanks)
    (arguments : ArgumentsText (offset + utf8Length (text ++ (blanks ++ ['(']))) inner given)
    (closed : ∀ offset, (optional semicolon).Takes offset tail rest ended) :
    (label <|> call).Takes offset (text ++ (blanks ++ '(' :: (inner ++ ')' :: tail))) rest
      (.call ⟨found, given, offset,
        offset + utf8Length (text ++ (blanks ++ '(' :: (inner ++ ')' :: tail)))⟩) := by
  have opened : Stops isNamePart ('(' :: (inner ++ ')' :: tail) ++ rest) :=
    stops_cons.mpr (by decide)
  have named : name.Takes offset text (blanks ++ '(' :: (inner ++ ')' :: tail) ++ rest) found := by
    rw [List.append_assoc]
    exact takes_name offset spelled (opened.blanks between fun _ => isNamePart_of_isBlank)
  -- a label is tried first, and given up where its colon should be
  have noLabel : label.Fails offset
      (text ++ (blanks ++ '(' :: (inner ++ ')' :: tail)) ++ rest) := by
    have noColon : (blanks ++ '(' :: (inner ++ ')' :: tail) ++ rest).head? ≠ some ':' := by
      rw [List.append_assoc]
      exact between.ne_head (by decide) (by simp)
    rw [List.append_assoc]
    exact (fails_located (named.bind_fails ((fails_expect _ noColon).bind _))).bind _
  have start : offset + utf8Length (text ++ (blanks ++ ['('])) =
      offset + utf8Length text + utf8Length blanks + 1 := by
    simp only [utf8Length_append, Nat.add_assoc]
    rfl
  rw [start] at arguments
  have made : (do
      let found ← name
      whitespace
      let given ← argumentList
      let _ ← optional semicolon
      return (found, given) : Reader (String × List Argument)).Takes offset
        (text ++ (blanks ++ '(' :: (inner ++ ')' :: tail))) rest (found, given) := by
    refine Takes.bind named (Takes.bind (takes_whitespace _ between (stops_cons.mpr (by decide))) ?_)
    have split : '(' :: (inner ++ ')' :: tail) = '(' :: (inner ++ [')']) ++ tail := by simp
    rw [split]
    apply Takes.bind (takes_argumentList arguments _)
    exact (closed _).bind_pure fun _ => (found, given)
  exact noLabel.orElse_takes ((takes_located made).bind_done (takes_pure _ _ rest))

theorem takes_label_or_call {found : Statement} (spelled : StatementBefore rest offset text found) :
    (label <|> call).Takes offset text rest found := by
  cases spelled with
  | label spelled => exact (takes_label offset spelled _).orElse call
  | call spelled between arguments closed =>
    obtain ⟨ended, taken⟩ := takes_semicolon closed
    exact takes_call spelled between arguments taken

end Parser

end Sequencer.Script
