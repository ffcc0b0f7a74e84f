import Mathlib.Algebra.Order.Ring.Int
import Sequencer.Proofs.Script.Writing

/-!
# Integers in scripts

An integer can be spelled in many ways: to base ten or sixteen, with zeros in front of its
digits, with letters in either case.  All spellings of one integer are read alike, as that
integer or not at all.

* `IntegerText` — the spellings of any integer, however great.
* `IntegerText.numberText` — those of the integers that can be read are numbers of the grammar.
* `Parser.fails_number_of_large` — the others are refused where they stand, so nothing can be
  read there, and the call around them is not read either.
* `parse_integers` — the calls that give integers, and which of them are read.

The digits are read without their sign, as a number that has to fit into 63 bits.  So the one
integer of 64 bits that has no positive counterpart cannot be written.
-/

namespace Sequencer.Script

/-! ## Spellings -/

/-- The spellings of a natural number: its digits behind any number of zeros. -/
inductive DigitsText : List Char → Nat → Prop where
  | decimal (zeros n : Nat) : DigitsText (List.replicate zeros '0' ++ Nat.toDigits 10 n) n
  | hexadecimal {digits : List Char} {zeros n : Nat}
      (lower : digits.map Char.toLower = List.replicate zeros '0' ++ Nat.toDigits 16 n) :
      DigitsText ('0' :: 'x' :: digits) n

/-- The spellings of an integer of any size. -/
inductive IntegerText : List Char → Int → Prop where
  | unsigned {text : List Char} {n : Nat} (digits : DigitsText text n) : IntegerText text n
  | negative {text : List Char} {n : Nat} (digits : DigitsText text n) :
      IntegerText ('-' :: text) (-n)

theorem toNat_toLower (c : Char) :
    c.toLower.toNat = if 65 ≤ c.toNat ∧ c.toNat ≤ 90 then c.toNat + 32 else c.toNat := by
  unfold Char.toLower
  simp only [UInt32.le_iff_toNat_le, ge_iff_le]
  change Char.toNat (if h : 65 ≤ c.toNat ∧ c.toNat ≤ 90 then _ else c) = _
  split
  next upper =>
    show (c.val + ('a'.val - 'A'.val)).toNat = c.toNat + 32
    rw [UInt32.toNat_add]
    show (c.toNat + 32) % 4294967296 = c.toNat + 32
    omega
  next => rfl

theorem isHexDigit_iff {c : Char} : isHexDigit c = true ↔
    (48 ≤ c.toNat ∧ c.toNat ≤ 57) ∨ (97 ≤ c.toNat ∧ c.toNat ≤ 102) ∨
      (65 ≤ c.toNat ∧ c.toNat ≤ 70) := by
  simp only [isHexDigit, Char.isDigit, Bool.or_eq_true, Bool.and_eq_true, decide_eq_true_eq,
    Char.le_def, UInt32.le_iff_toNat_le, or_assoc]
  exact Iff.rfl

theorem digitValue_eq (c : Char) : digitValue c =
    if 48 ≤ c.toNat ∧ c.toNat ≤ 57 then c.toNat - 48
    else if 97 ≤ c.toNat then c.toNat - 97 + 10 else c.toNat - 65 + 10 := by
  simp only [digitValue, Char.isDigit, Bool.and_eq_true, decide_eq_true_eq, Char.le_def,
    UInt32.le_iff_toNat_le]
  rfl

/-- Letters stand for the same digits in either case. -/
theorem digit_of_toLower {c : Char} (digit : isHexDigit c.toLower = true) :
    isHexDigit c = true ∧ digitValue c = digitValue c.toLower := by
  rw [isHexDigit_iff, toNat_toLower] at digit
  rw [isHexDigit_iff, digitValue_eq, digitValue_eq, toNat_toLower]
  split at digit <;> grind

theorem digits_of_map_toLower {digits : List Char}
    (lower : ∀ c ∈ digits.map Char.toLower, isHexDigit c = true) :
    (∀ c ∈ digits, isHexDigit c = true) ∧
      digitsValue 16 digits = digitsValue 16 (digits.map Char.toLower) := by
  rw [List.forall_mem_map] at lower
  refine ⟨fun c member => (digit_of_toLower (lower c member)).1, ?_⟩
  rw [digitsValue, digitsValue, List.foldl_map]
  refine List.foldl_ext _ _ _ fun n c member => ?_
  rw [(digit_of_toLower (lower c member)).2]

theorem DigitsText.magnitudeText {text : List Char} {n : Nat} (digits : DigitsText text n) :
    MagnitudeText text n := by
  cases digits with
  | decimal zeros n =>
    have areDigits := forall_mem_padded zeros (show ('0'.isDigit = true) by decide) fun c member =>
      Nat.isDigit_of_mem_toDigits (by decide : 0 < 10) (by decide) (n := n) member
    have spelled := MagnitudeText.decimal (by simp [Nat.toDigits_ne_nil]) areDigits
    rwa [digitsValue_replicate_zero, (digits_toDigits (by decide) (by decide) n).1] at spelled
  | @hexadecimal digits zeros n lower =>
    obtain ⟨value, areDigits⟩ := digits_toDigits (show 1 < 16 by decide) (Nat.le_refl 16) n
    have padded : ∀ c ∈ digits.map Char.toLower, isHexDigit c = true := by
      rw [lower]
      exact forall_mem_padded zeros (by decide) areDigits
    obtain ⟨all, same⟩ := digits_of_map_toLower padded
    have some : digits ≠ [] := by
      rintro rfl
      simp [Nat.toDigits_ne_nil] at lower
    have spelled := MagnitudeText.hexadecimal some all
    rwa [same, lower, digitsValue_replicate_zero, value] at spelled

/-- The spellings of an integer that is not too great are numbers. -/
theorem IntegerText.numberText {text : List Char} {value : Int} (spelled : IntegerText text value)
    (fits : value.natAbs ≤ greatestMagnitude) : NumberText text value := by
  cases spelled with
  | unsigned digits => exact .unsigned digits.magnitudeText (by simpa using fits)
  | negative digits => exact .negative digits.magnitudeText (by simpa using fits)

/-- No spelling of an integer starts like a name, with a blank or with a parenthesis. -/
theorem IntegerText.exists_cons {text : List Char} {value : Int}
    (spelled : IntegerText text value) :
    ∃ c more, text = c :: more ∧ isNameStart c = false ∧ Text.isBlank c = false ∧ c ≠ ')' := by
  cases spelled with
  | unsigned digits =>
    obtain ⟨c, more, rfl, digit⟩ := digits.magnitudeText.exists_cons
    refine ⟨c, more, rfl, ?_, isBlank_of_isNamePart (isNamePart_of_isDigit digit), ?_⟩
    · by_contra start
      rw [isDigit_of_isNameStart (by simpa using start)] at digit
      cases digit
    · rintro rfl
      exact absurd digit (by decide)
  | negative digits => exact ⟨_, _, rfl, by decide, by decide, by decide⟩

/-! ## Integers that are too great -/

namespace Parser

open Reader

variable {offset : Nat} {text rest : List Char} {value : Int}

/-- An integer that is too great is refused. -/
theorem fails_number_of_large (offset : Nat) (spelled : IntegerText text value)
    (large : greatestMagnitude < value.natAbs) (stops : Stops isNamePart rest) :
    number.Fails offset (text ++ rest) := by
  have refused : ∀ {n : Nat} (sign : Option Unit) (offset : Nat), greatestMagnitude < n →
      (if n ≤ greatestMagnitude then
        (pure (if sign.isSome then -(n : Int) else n) : Reader Int)
        else refuse).Fails offset rest := by
    intro n sign offset large
    rw [if_neg (by omega)]
    rfl
  -- the digits are taken, but not the number they give
  cases spelled with
  | @unsigned text n digits =>
    have magnitude := digits.magnitudeText
    obtain ⟨c, more, split, digit⟩ := magnitude.exists_cons
    have noSign : (text ++ rest).head? ≠ some '-' := by
      rw [split]
      exact head_cons_ne digit (by decide) _
    show number.Fails offset ([] ++ (text ++ rest))
    refine Takes.bind_fails (fails_expect offset noSign).optional ?_
    exact (takes_magnitude _ magnitude stops).bind_fails (refused none _ (by simpa using large))
  | @negative text n digits =>
    show number.Fails offset (['-'] ++ (text ++ rest))
    refine Takes.bind_fails (takes_expect '-' offset _).optional ?_
    exact (takes_magnitude _ digits.magnitudeText stops).bind_fails
      (refused (some ()) _ (by simpa using large))

theorem fails_argument_of_large {blanks : List Char} (offset : Nat) (before : Blanks blanks)
    (spelled : IntegerText text value) (large : greatestMagnitude < value.natAbs)
    (stops : Stops isNamePart rest) : argument.Fails offset (blanks ++ (text ++ rest)) := by
  have noNumber := fails_number_of_large (offset + utf8Length blanks) spelled large stops
  obtain ⟨c, more, rfl, noStart, visible, -⟩ := spelled.exists_cons
  have noName : name.Fails (offset + utf8Length blanks) (c :: more ++ rest) :=
    fails_name _ (stops_cons.mpr noStart)
  have noValue : Parser.value.Fails (offset + utf8Length blanks) (c :: more ++ rest) :=
    (noNumber.bind _).orElse (noName.bind _)
  exact (takes_skipBlanks offset before (stops_cons.mpr visible)).bind_fails
    ((fails_located noValue).bind _)

/-- What is left of an argument list is given up in front of an integer. -/
theorem fails_close (offset : Nat) {blanks : List Char} (before : Blanks blanks)
    (spelled : IntegerText text value) (given : List Argument) :
    (do skipBlanks; expect ')'; return given : Reader (List Argument)).Fails offset
      (blanks ++ (text ++ rest)) := by
  obtain ⟨c, more, rfl, -, visible, other⟩ := spelled.exists_cons
  exact (takes_skipBlanks offset before (stops_cons.mpr visible)).bind_fails
    ((fails_expect _ (by simpa using other)).bind _)

theorem fails_argumentList_of_large (offset : Nat) (spelled : IntegerText text value)
    (large : greatestMagnitude < value.natAbs) (stops : Stops isNamePart rest) :
    argumentList.Fails offset ('(' :: (text ++ rest)) := by
  have visible : Stops Text.isBlank (text ++ rest) := by
    obtain ⟨c, more, rfl, -, visible, -⟩ := spelled.exists_cons
    exact stops_cons.mpr visible
  have noArgument := fun offset => fails_argument_of_large offset blanks_nil spelled large stops
  have none : ∀ offset, arguments.Takes offset [] (text ++ rest) [] := fun offset =>
    (Fails.optional (noArgument offset)).bind_done (takes_pure [] _ _)
  change Fails _ _ (['('] ++ _)
  refine Takes.bind_fails (takes_expect '(' offset _) ?_
  refine (takes_skipBlanks _ blanks_nil visible).bind_fails ((none _).bind_fails ?_)
  exact fails_close _ blanks_nil spelled []

theorem fails_argumentList_of_further {first : Argument} {further : List Argument}
    {lead more blanks : List Char} (head : ArgumentText (offset + 1) lead first)
    (tail : FurtherText (offset + 1 + utf8Length lead) more further) (before : Blanks blanks)
    (spelled : IntegerText text value) (large : greatestMagnitude < value.natAbs)
    (stops : Stops isNamePart rest) :
    argumentList.Fails offset ('(' :: (lead ++ (more ++ ',' :: (blanks ++ (text ++ rest))))) := by
  obtain ⟨left, visible, rfl, areBlanks, started, head⟩ := head.split
  rw [utf8Length_append, ← Nat.add_assoc] at tail
  have comma : IsDelimited (',' :: (blanks ++ (text ++ rest))) := ⟨_, _, rfl, .inl rfl⟩
  -- the comma is tried for one more argument before it is taken for the last character
  have last : ∀ offset, nextArgument.Fails offset ([','] ++ (blanks ++ (text ++ rest))) :=
    fun offset => Takes.bind_fails (takes_expect ',' offset _)
      (fails_argument_of_large _ before spelled large stops)
  have taken : arguments.Takes (offset + 1 + utf8Length left) (visible ++ (more ++ [',']))
      (blanks ++ (text ++ rest)) (first :: further) := by
    have delimited := isDelimited_further tail comma
    refine Takes.bind (takes_argument head ?_).optional ?_
    · simpa using delimited
    · exact Takes.bind (takes_many_nextArgument tail comma last)
        ((takes_expect ',' _ _).optional.bind_pure fun _ => first :: further)
  have layout : left ++ visible ++ (more ++ ',' :: (blanks ++ (text ++ rest))) =
      left ++ (visible ++ (more ++ [',']) ++ (blanks ++ (text ++ rest))) := by simp
  rw [layout]
  change Fails _ _ (['('] ++ _)
  refine Takes.bind_fails (takes_expect '(' offset _) ?_
  refine (takes_skipBlanks _ areBlanks ?_).bind_fails (taken.bind_fails ?_)
  · simpa using started (more ++ ',' :: (blanks ++ (text ++ rest)))
  · exact fails_close _ before spelled _

/-- A call is not read if its arguments are not. -/
theorem fails_label_or_call {found : String} (offset : Nat) (spelled : NameText text found)
    (fails : ∀ offset, argumentList.Fails offset ('(' :: rest)) :
    (label <|> call).Fails offset (text ++ '(' :: rest) := by
  have ended : Stops isNamePart ('(' :: rest) := stops_cons.mpr (by decide)
  have named := takes_name offset spelled ended
  have noLabel : label.Fails offset (text ++ '(' :: rest) :=
    (fails_located (named.bind_fails ((fails_expect _ (by simp)).bind _))).bind _
  have opened : Stops Text.isBlank ('(' :: rest) := stops_cons.mpr (by decide)
  refine noLabel.orElse ((fails_located (named.bind_fails ?_)).bind _)
  exact (takes_whitespace _ blanks_nil opened).bind_fails ((fails _).bind _)

/-- A text is not read if it starts with a statement that is not. -/
theorem fails_script (offset : Nat) {c : Char} (start : isNameStart c = true)
    (fails : ∀ offset, (label <|> call).Fails offset (c :: rest)) :
    script.Fails offset (c :: rest) := by
  have visible : Stops Text.isBlank (c :: rest) := stops_cons.mpr (isBlank_of_isNameStart start)
  have other : (c :: rest).head? ≠ some '/' := head_cons_ne start (by decide) rest
  have noStatement : statement.Fails offset ([] ++ c :: rest) :=
    Fails.gap (.inl .nil) visible other ((fails _).bind _)
  -- no statement is read, so the script would have to end here
  have noEnd : ∀ offset, endOfInput.Fails offset (c :: rest) := fun offset => rfl
  change Fails _ _ ([] ++ (c :: rest))
  refine Takes.bind_fails (takes_skipBlanks offset blanks_nil visible) ?_
  change Fails _ _ ([] ++ (c :: rest))
  refine Takes.bind_fails (Fails.many consumes_statement noStatement) ?_
  change Fails _ _ ([] ++ (c :: rest))
  exact Fails.gap (.inl .nil) visible other ((noEnd _).bind _)

end Parser

/-! ## Calls with integers -/

section Calls

variable {name : String} {texts : List String} {values : List Int}

/-- The first integer that is too great stands behind others that can be read. -/
theorem exists_first_large
    (spelled : List.Forall₂ (fun text value => IntegerText text.toList value) texts values)
    (large : ¬∀ value ∈ values, value.natAbs ≤ greatestMagnitude) :
    ∃ front given text value back, texts = front ++ text :: back ∧
      List.Forall₂ Spells front given ∧ IntegerText text.toList value ∧
      greatestMagnitude < value.natAbs := by
  induction spelled with
  | nil => exact absurd (List.forall_mem_nil _) large
  | @cons text value texts values head tail ih =>
    by_cases fits : value.natAbs ≤ greatestMagnitude
    · have later : ¬∀ value ∈ values, value.natAbs ≤ greatestMagnitude := fun all =>
        large (List.forall_mem_cons.mpr ⟨fits, all⟩)
      obtain ⟨front, given, text', value', back, rfl, spells, spelled', large'⟩ := ih later
      have first : Spells text ⟨.number value, default⟩ := .number (head.numberText fits)
      exact ⟨text :: front, _ :: given, text', value', back, rfl, .cons first spells, spelled',
        large'⟩
    · exact ⟨[], [], text, value, texts, rfl, .nil, head, by omega⟩

theorem toList_callText (name : String) (texts : List String) :
    (callText name texts).toList =
      name.toList ++ '(' :: ((", ".intercalate texts).toList ++ [')']) := by
  simp [callText]

/-- A list of arguments with an integer that is too great is not read. -/
theorem fails_argumentList_of_integers (offset : Nat)
    (spelled : List.Forall₂ (fun text value => IntegerText text.toList value) texts values)
    (large : ¬∀ value ∈ values, value.natAbs ≤ greatestMagnitude) :
    Parser.argumentList.Fails offset ('(' :: ((", ".intercalate texts).toList ++ [')'])) := by
  obtain ⟨front, given, text, value, back, rfl, spells, spelled', large'⟩ :=
    exists_first_large spelled large
  generalize further : (back.flatMap fun text => ", ".toList ++ text.toList) ++ [')'] = rest
  have stops : Stops isNamePart rest := by
    rw [← further]
    cases back <;> exact stops_cons.mpr (by decide)
  cases spells with
  | nil =>
    rw [List.nil_append, toList_intercalate_cons, List.append_assoc, further]
    exact Parser.fails_argumentList_of_large offset spelled' large' stops
  | @cons first argument front given head tail =>
    obtain ⟨_, -, leading⟩ := exists_argumentText (offset + 1) blanks_nil head
    obtain ⟨_, -, following⟩ :=
      exists_furtherText (offset + 1 + utf8Length ([] ++ first.toList)) tail
    have blank : Blanks [' '] := blanks_cons.mpr ⟨by decide, blanks_nil⟩
    have fails := Parser.fails_argumentList_of_further leading following blank spelled' large' stops
    rw [List.cons_append, toList_intercalate_cons, List.flatMap_append, List.flatMap_cons]
    rw [← further] at fails
    simpa using fails

theorem spells_of_integers
    (spelled : List.Forall₂ (fun text value => IntegerText text.toList value) texts values)
    (fits : ∀ value ∈ values, value.natAbs ≤ greatestMagnitude) :
    List.Forall₂ Spells texts (values.map fun value => ⟨.number value, default⟩) := by
  induction spelled with
  | nil => exact .nil
  | cons head _ ih =>
    obtain ⟨first, others⟩ := List.forall_mem_cons.mp fits
    exact .cons (.number (head.numberText first)) (ih others)

theorem parse_of_fails {source : String} (fails : Parser.script.Fails 0 source.toList) :
    ∃ failure, parse source = .error failure := by
  rw [Reader.Fails] at fails
  simp [parse, Cursor.ofString, fails]

/-- A call that gives integers, however they are spelled, is read as the call with these integers
if all of them are closer to zero than 2 ^ 63.  Otherwise it is refused. -/
theorem parse_integers (named : NameText name.toList name)
    (spelled : List.Forall₂ (fun text value => IntegerText text.toList value) texts values) :
    if ∀ value ∈ values, -2 ^ 63 < value ∧ value < 2 ^ 63 then
      (parse (callText name texts)).map (List.map Statement.bare) =
        .ok [.call ⟨name, values.map fun value => ⟨.number value, default⟩, default⟩]
    else
      ∃ failure, parse (callText name texts) = .error failure := by
  have range : ∀ value : Int, (-2 ^ 63 < value ∧ value < 2 ^ 63) ↔
      value.natAbs ≤ greatestMagnitude := by
    intro value
    rw [greatestMagnitude]
    omega
  simp only [range]
  split
  next fits =>
    have spells := spells_of_integers spelled fits
    have writes : Writes (callText name texts).toList [.call ⟨name, _, default⟩] :=
      writes_statement fun offset => exists_callText offset named spells
    obtain ⟨placed, layout, same⟩ := writes.isLayout
    obtain ⟨found, parsed, same'⟩ := parse_of_scriptText layout
    rw [parsed, Except.map, same'.trans same]
    simp [Call.bare, Argument.bare]
  next large =>
    have noCall := fun offset => Parser.fails_label_or_call offset named fun offset =>
      fails_argumentList_of_integers offset spelled large
    obtain ⟨c, more, split, start⟩ := named.exists_cons
    apply parse_of_fails
    rw [toList_callText]
    rw [split] at noCall ⊢
    exact Parser.fails_script 0 start noCall

/-- Zeros and letters of either case, and the two integers next to the end of the range. -/
theorem parse_extremeIntegers :
    let texts := ["-0x00007fffFFFFffffFFFF", "9223372036854775807"]
    let values : List Int := [-2 ^ 63 + 1, 2 ^ 63 - 1]
    List.Forall₂ (fun text value => IntegerText text.toList value) texts values ∧
      (parse (callText "db" texts)).map (List.map Statement.bare) =
        .ok [.call ⟨"db", values.map fun value => ⟨.number value, default⟩, default⟩] ∧
      IntegerText "9223372036854775808".toList (2 ^ 63) ∧
      ∃ failure, parse "db(9223372036854775808)" = .error failure := by
  intro texts values
  have least : IntegerText "-0x00007fffFFFFffffFFFF".toList (-2 ^ 63 + 1) := by
    have lower : "00007fffFFFFffffFFFF".toList.map Char.toLower =
        List.replicate 4 '0' ++ Nat.toDigits 16 0x7fffffffffffffff := by decide
    have spelled := IntegerText.negative (.hexadecimal lower)
    simpa using spelled
  have greatest : IntegerText "9223372036854775807".toList (2 ^ 63 - 1) := by
    have digits : Nat.toDigits 10 9223372036854775807 = "9223372036854775807".toList := by decide
    have spelled := IntegerText.unsigned (.decimal 0 9223372036854775807)
    simpa [digits] using spelled
  have beyond : IntegerText "9223372036854775808".toList (2 ^ 63) := by
    have digits : Nat.toDigits 10 9223372036854775808 = "9223372036854775808".toList := by decide
    have spelled := IntegerText.unsigned (.decimal 0 9223372036854775808)
    simpa [digits] using spelled
  have spelled : List.Forall₂ (fun text value => IntegerText text.toList value) texts values :=
    .cons least (.cons greatest .nil)
  have named : NameText "db".toList "db" := nameText_of_isName (by decide)
  refine ⟨spelled, ?_, beyond, ?_⟩
  · have read := parse_integers named spelled
    rwa [if_pos (by decide)] at read
  · have read := parse_integers named (.cons beyond .nil)
    rwa [if_neg (by decide)] at read

/-- The least integer of 64 bits is refused like one that is too great. -/
theorem parse_leastInteger :
    IntegerText "-9223372036854775808".toList (-2 ^ 63) ∧
      parse "set(-9223372036854775808)" = .error ⟨5, ⟨4, 5⟩, [.somethingElse], none⟩ := by
  have digits : Nat.toDigits 10 9223372036854775808 = "9223372036854775808".toList := by decide
  have spelled := IntegerText.negative (.decimal 0 9223372036854775808)
  exact ⟨by simpa [digits] using spelled, by decide +kernel⟩

end Calls

end Sequencer.Script
