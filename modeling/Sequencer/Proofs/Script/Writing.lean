import Sequencer.Proofs.Script.Completeness.Scripts
import Sequencer.Proofs.Script.Emission
import Sequencer.Script.Printer

/-!
# Written scripts are read back

A statement has a text of its own, and texts of statements with gaps between them are a
layout of the statements, so they are parsed and compiled as if they had never been text.

* `Statement.Writable` — names are names, and no number is too great.
* `Writes` — a text is a layout of a part of a script, whatever follows.
  `writes_intercalate` puts parts together.
* `isLayout_linesOf` — the lines of a script are a layout of it.
* `accepted_map_bare_iff` — spans play no part in what a script is compiled to.
* `compile_linesOf` — a script that is accepted is so when it has been written and read.
-/

namespace Sequencer.Script

/-! ## What can be written -/

def Value.Writable : Value → Prop
  | .number value => value.natAbs ≤ greatestMagnitude
  | .label name => NameText name.toList name

def Statement.Writable : Statement → Prop
  | .label name _ => NameText name.toList name
  | .call made =>
    NameText made.name.toList made.name ∧ ∀ argument ∈ made.arguments, argument.value.Writable

/-- The text of a script with one statement to a line. -/
def linesOf (script : List Statement) : String :=
  "\n".intercalate (script.map Statement.text)

theorem toList_intercalate_cons (separator first : String) (rest : List String) :
    (separator.intercalate (first :: rest)).toList =
      first.toList ++ rest.flatMap fun text => separator.toList ++ text.toList := by
  induction rest generalizing first with
  | nil => simp
  | cons next rest ih =>
    rw [String.intercalate_cons_cons, String.toList_append, String.toList_append, ih,
      List.flatMap_cons]
    simp

/-! ## Numbers and names -/

/-- Whether a text can be the name of a label or of a call. -/
def isName (name : String) : Bool :=
  match name.toList with
  | [] => false
  | first :: rest => isNameStart first && rest.all isNamePart

theorem nameText_of_isName {name : String} (named : isName name = true) :
    NameText name.toList name := by
  unfold isName at named
  split at named
  next => cases named
  next first rest whole =>
    obtain ⟨start, part⟩ := Bool.and_eq_true_iff.mp named
    have spelled := NameText.intro start (List.all_eq_true.mp part)
    rw [← whole, String.ofList_toList] at spelled
    exact spelled

theorem isName_append_decimal {name : String} (named : isName name = true) (n : Nat) :
    isName (name ++ Text.decimal n) = true := by
  unfold isName at named ⊢
  rw [String.toList_append]
  split at named
  next => cases named
  next first rest whole =>
    rw [whole]
    obtain ⟨start, part⟩ := Bool.and_eq_true_iff.mp named
    have digits : ∀ c ∈ (Text.decimal n).toList, isNamePart c = true := by
      intro c member
      rw [Text.decimal, String.toList_ofList] at member
      have digit : c.isDigit = true :=
        Nat.isDigit_of_mem_toDigits (by decide) (by decide) member
      simp [isNamePart, Char.isAlphanum, digit]
    simp only [List.cons_append, List.all_append, start, part, Bool.true_and, List.all_eq_true]
    exact digits

theorem isName_mnemonic (opcode : Opcode) : isName opcode.mnemonic = true := by
  have all : ∀ opcode ∈ Opcode.all, isName opcode.mnemonic = true := by decide
  exact all opcode opcode.mem_all

theorem isName_dataMnemonic : isName dataMnemonic = true := by
  decide

theorem digitsValue_concat (base : Nat) (digits : List Char) (c : Char) :
    digitsValue base (digits ++ [c]) = base * digitsValue base digits + digitValue c := by
  simp [digitsValue]

theorem digitsValue_replicate_zero (base zeros : Nat) (digits : List Char) :
    digitsValue base (List.replicate zeros '0' ++ digits) = digitsValue base digits := by
  have zero : digitValue '0' = 0 := by decide
  induction zeros with
  | zero => rfl
  | succ zeros ih => simpa [List.replicate_succ, digitsValue, zero] using ih

theorem forall_mem_padded {p : Char → Prop} {digits : List Char} (zeros : Nat) (zero : p '0')
    (all : ∀ c ∈ digits, p c) : ∀ c ∈ List.replicate zeros '0' ++ digits, p c :=
  List.forall_mem_append.mpr ⟨fun _ member => List.eq_of_mem_replicate member ▸ zero, all⟩

/-- The digits of a number have its value, and are digits of the parser. -/
theorem digits_toDigits {base : Nat} (some : 1 < base) (few : base ≤ 16) (n : Nat) :
    digitsValue base (Nat.toDigits base n) = n ∧ ∀ c ∈ Nat.toDigits base n, isHexDigit c = true := by
  have digits : ∀ digit < 16, digitValue (Nat.digitChar digit) = digit ∧
      isHexDigit (Nat.digitChar digit) = true := by
    decide
  -- on the digits, from the last one
  induction n using Nat.strongRecOn with
  | ind n ih =>
    rw [Nat.toDigits_eq_if some]
    split
    next small =>
      obtain ⟨value, isDigit⟩ := digits n (by omega)
      exact ⟨by simp [digitsValue, value], by simpa using isDigit⟩
    next large =>
      obtain ⟨value, isDigit⟩ := digits (n % base) (by have := Nat.mod_lt n (by omega : base > 0); omega)
      obtain ⟨front, areDigits⟩ := ih (n / base) (Nat.div_lt_self (by omega) some)
      refine ⟨?_, ?_⟩
      · rw [digitsValue_concat, front, value, Nat.div_add_mod]
      · intro c member
        obtain earlier | last := List.mem_append.mp member
        · exact areDigits c earlier
        · obtain rfl := List.mem_singleton.mp last
          exact isDigit

theorem decimal_injective : Function.Injective Text.decimal := by
  intro n m same
  rw [Text.decimal, Text.decimal, String.ofList_inj] at same
  rw [← (digits_toDigits (show 1 < 10 by decide) (by decide) n).1, same]
  exact (digits_toDigits (by decide) (by decide) m).1

theorem magnitudeText_decimal (n : Nat) : MagnitudeText (Text.decimal n).toList n := by
  have digits : ∀ c ∈ Nat.toDigits 10 n, c.isDigit = true := fun c member =>
    Nat.isDigit_of_mem_toDigits (by decide) (by decide) member
  have spelled := MagnitudeText.decimal Nat.toDigits_ne_nil digits
  rw [(digits_toDigits (by decide) (by decide) n).1] at spelled
  simpa [Text.decimal] using spelled

theorem magnitudeText_hexadecimal (n : Nat) :
    MagnitudeText ("0x" ++ Text.hexadecimal n).toList n := by
  obtain ⟨value, digits⟩ := digits_toDigits (show 1 < 16 by decide) (Nat.le_refl 16) n
  have spelled := MagnitudeText.hexadecimal Nat.toDigits_ne_nil digits
  rw [value] at spelled
  simpa [Text.hexadecimal] using spelled

theorem Value.Writable.valueText {value : Value} (writable : value.Writable) :
    ValueText value.text.toList value := by
  cases value with
  | label name => exact .label writable
  | number value =>
    have magnitude := magnitudeText_decimal value.natAbs
    by_cases negative : value < 0
    · have spelled := NumberText.negative magnitude writable
      have same : -(value.natAbs : Int) = value := by omega
      rw [same] at spelled
      simpa [Value.text, negative] using ValueText.number spelled
    · have spelled := NumberText.unsigned magnitude writable
      have same : (value.natAbs : Int) = value := by omega
      rw [same] at spelled
      simpa [Value.text, negative] using ValueText.number spelled

/-! ## Statements -/

/-- Whether the text spells the value of the argument. -/
def Spells (text : String) (argument : Argument) : Prop :=
  ValueText text.toList argument.value

theorem exists_argumentText (offset : Nat) {blanks : List Char} {text : String}
    {argument : Argument} (before : Blanks blanks) (spells : Spells text argument) :
    ∃ placed, placed.bare = argument.bare ∧ ArgumentText offset (blanks ++ text.toList) placed := by
  have spelled := @ArgumentText.intro offset _ _ _ _ before spells blanks_nil
  rw [List.append_nil] at spelled
  exact ⟨_, by rfl, spelled⟩

theorem exists_furtherText (offset : Nat) {texts : List String} {given : List Argument}
    (spells : List.Forall₂ Spells texts given) :
    ∃ placed, placed.map Argument.bare = given.map Argument.bare ∧
      FurtherText offset (texts.flatMap fun text => ',' :: ' ' :: text.toList) placed := by
  induction spells generalizing offset with
  | nil => exact ⟨[], rfl, .nil⟩
  | cons head tail ih =>
    have blank : Blanks [' '] := blanks_cons.mpr ⟨by decide, blanks_nil⟩
    obtain ⟨first, same, spelled⟩ := exists_argumentText (offset + 1) blank head
    obtain ⟨placed, same', further⟩ := ih _
    exact ⟨first :: placed, by simp [same, same'], .cons spelled further⟩

theorem exists_argumentsText (offset : Nat) {texts : List String} {given : List Argument}
    (spells : List.Forall₂ Spells texts given) :
    ∃ placed, placed.map Argument.bare = given.map Argument.bare ∧
      ArgumentsText offset (", ".intercalate texts).toList placed := by
  cases spells with
  | nil => exact ⟨[], rfl, .none blanks_nil⟩
  | cons head tail =>
    obtain ⟨first, same, spelled⟩ := exists_argumentText offset blanks_nil head
    obtain ⟨placed, same', further⟩ := exists_furtherText (offset + utf8Length _) tail
    have whole := ArgumentsText.some spelled further .nil
    refine ⟨first :: placed, by simp [same, same'], ?_⟩
    rw [toList_intercalate_cons]
    simpa using whole

theorem exists_labelText (offset : Nat) {name : String} (span : Span)
    (named : NameText name.toList name) :
    ∃ placed, placed.bare = (Statement.label name span).bare ∧
      StatementText offset (labelText name).toList placed := by
  refine ⟨.label name ⟨offset, offset + utf8Length (name.toList ++ [':'])⟩, rfl, ?_⟩
  simpa [labelText] using StatementText.label named

theorem exists_callText (offset : Nat) {call : Call} {texts : List String}
    (named : NameText call.name.toList call.name)
    (spells : List.Forall₂ Spells texts call.arguments) :
    ∃ placed, placed.bare = (Statement.call call).bare ∧
      StatementText offset (callText call.name texts).toList placed := by
  obtain ⟨placed, same, arguments⟩ :=
    exists_argumentsText (offset + utf8Length (call.name.toList ++ ([] ++ ['(']))) spells
  have spelled := StatementText.call named blanks_nil arguments .nil
  have whole : (callText call.name texts).toList = call.name.toList ++ ([] ++
      '(' :: ((", ".intercalate texts).toList ++ ')' :: [])) := by
    simp [callText]
  rw [whole]
  exact ⟨_, by simp [Call.bare, same], spelled⟩

theorem exists_statementText (offset : Nat) {statement : Statement} (writable : statement.Writable) :
    ∃ placed, placed.bare = statement.bare ∧
      StatementText offset statement.text.toList placed := by
  cases statement with
  | label name span => exact exists_labelText offset span writable
  | call call =>
    obtain ⟨named, given⟩ := writable
    refine exists_callText offset named (List.forall₂_map_left_iff.mpr ?_)
    exact List.forall₂_same.mpr fun argument member => (given argument member).valueText

/-! ## Scripts -/

/-- Whether the text is a layout of a part of a script, in front of any layout of the rest. -/
def Writes (text : List Char) (part : List Statement) : Prop :=
  ∀ offset rest script, ScriptText (offset + utf8Length text) rest script →
    ∃ placed, placed.map Statement.bare = part.map Statement.bare ∧
      ScriptText offset (text ++ rest) (placed ++ script)

section Writes

variable {text text' : List Char} {part part' : List Statement}

theorem writes_nil : Writes [] [] :=
  fun _ _ _ spelled => ⟨[], rfl, spelled⟩

theorem Writes.append (first : Writes text part) (second : Writes text' part') :
    Writes (text ++ text') (part ++ part') := by
  intro offset rest script spelled
  rw [utf8Length_append, ← Nat.add_assoc] at spelled
  obtain ⟨placed', same', spelled⟩ := second _ _ _ spelled
  obtain ⟨placed, same, spelled⟩ := first _ _ _ spelled
  exact ⟨placed ++ placed', by simp [same, same'], by simpa using spelled⟩

theorem writes_gap {gap : List Char} (before : Gap gap) : Writes gap [] :=
  fun _ _ _ spelled => ⟨[], rfl, spelled.append_gap before⟩

theorem writes_statement {statement : Statement}
    (written : ∀ offset, ∃ placed, placed.bare = statement.bare ∧
      StatementText offset text placed) : Writes text [statement] := by
  intro offset rest script spelled
  obtain ⟨placed, same, whole⟩ := written (offset + utf8Length [])
  exact ⟨[placed], by simp [same], .statement .nil whole spelled⟩

/-- Separated by a gap, texts of parts write the parts in order. -/
theorem writes_intercalate {separator : String} (gap : Gap separator.toList) {texts : List String}
    {parts : List (List Statement)}
    (writes : List.Forall₂ (fun text part => Writes text.toList part) texts parts) :
    Writes (separator.intercalate texts).toList parts.flatten := by
  cases writes with
  | nil => exact writes_nil
  | cons head tail =>
    rw [toList_intercalate_cons]
    refine head.append ?_
    induction tail with
    | nil => exact writes_nil
    | cons next _ ih => exact ((writes_gap gap).append next).append ih

theorem Writes.isLayout {source : String} {script : List Statement}
    (writes : Writes source.toList script) : IsLayout source script := by
  obtain ⟨placed, same, spelled⟩ := writes 0 [] [] (.closing (.gap .nil))
  exact ⟨placed, by simpa using spelled, same⟩

end Writes

theorem gap_newline : Gap "\n".toList :=
  .blank (by decide) .nil

theorem isLayout_linesOf {script : List Statement}
    (writable : ∀ statement ∈ script, statement.Writable) : IsLayout (linesOf script) script := by
  have writes : List.Forall₂ (fun text part => Writes text.toList part)
      (script.map Statement.text) (script.map ([·])) := by
    rw [List.forall₂_map_left_iff, List.forall₂_map_right_iff, List.forall₂_same]
    exact fun statement member =>
      writes_statement fun offset => exists_statementText offset (writable statement member)
  have whole := writes_intercalate gap_newline writes
  rw [← List.flatMap_def, List.flatMap_singleton'] at whole
  exact whole.isLayout

/-! ## Spans and bytes -/

theorem definedNames_map_bare (script : List Statement) :
    definedNames (script.map Statement.bare) = definedNames script := by
  induction script with
  | nil => rfl
  | cons statement script ih => cases statement <;> simp_all [definedNames]

theorem calls_map_bare (script : List Statement) :
    calls (script.map Statement.bare) = (calls script).map Call.bare := by
  induction script with
  | nil => rfl
  | cons statement script ih =>
    cases statement with
    | label name span => exact ih
    | call made => simp_all [calls, Statement.call?]

theorem labelsOf_map_bare (script : List Statement) :
    labelsOf (script.map Statement.bare) = labelsOf script := by
  -- repeated definitions are noted with their spans, so not all of the layouts agree
  have general : ∀ (part : List Statement) (layout layout' : Layout),
      layout.offset = layout'.offset → layout.labels = layout'.labels →
      ((part.map Statement.bare).foldl Layout.place layout).labels =
        (part.foldl Layout.place layout').labels := by
    intro part
    induction part with
    | nil => intro layout layout' _ sameLabels; exact sameLabels
    | cons statement part ih =>
      intro layout layout' sameOffset sameLabels
      cases statement with
      | label name span => exact ih _ _ sameOffset (by simp [Layout.place, sameOffset, sameLabels])
      | call made =>
        have sameSize : made.bare.size = made.size := by simp [Call.size, Call.bare]
        exact ih _ _ (by simp [Layout.place, sameOffset, sameSize]) sameLabels
  exact general script {} {} rfl rfl

theorem makes_bare_iff {labels : Labels} {call : Call} {directive : Directive} :
    Makes labels call.bare directive ↔ Makes labels call directive := by
  have same : ∀ (argument : Argument) (width : Width) (operand : Operand),
      argument.bare.operand labels width = .ok operand ↔
        argument.operand labels width = .ok operand := by
    intro argument width operand
    rw [Argument.operand_eq_ok_iff, Argument.operand_eq_ok_iff]
    rfl
  constructor
  · intro makes
    cases makes with
    | data name given =>
      have given := List.forall₂_map_left_iff.mp given
      exact .data name (given.imp fun argument operand => (same argument _ operand).mp)
    | plain name width given => exact .plain name width (List.map_eq_nil_iff.mp given)
    | operand name width given value =>
      obtain ⟨argument, single, rfl⟩ := List.map_eq_singleton_iff.mp given
      exact .operand name width single ((same _ _ _).mp value)
  · intro makes
    cases makes with
    | data name given =>
      refine .data name (List.forall₂_map_left_iff.mpr ?_)
      exact given.imp fun argument operand => (same argument _ operand).mpr
    | plain name width given => exact .plain name width (by simp [Call.bare, given])
    | operand name width given value =>
      exact .operand name width (by simp [Call.bare, given]) ((same _ _ _).mpr value)

theorem emitted_map_bare (labels : Labels) (script : List Statement) :
    emitted labels (script.map Statement.bare) = emitted labels script := by
  have same : ∀ call : Call,
      (call.bare.directive labels).toOption = (call.directive labels).toOption := by
    intro call
    ext directive
    have known : ∀ made : Except Fault Directive,
        made.toOption = some directive ↔ made = .ok directive := by
      intro made
      cases made <;> simp [Except.toOption]
    rw [known, known, Call.directive_eq_ok_iff, Call.directive_eq_ok_iff, makes_bare_iff]
  simp [emitted, written, calls_map_bare, List.filterMap_map, same]

/-- Spans play no part in what a script is compiled to. -/
theorem accepted_map_bare_iff {script : List Statement} {code : Bytecode} :
    Accepted (script.map Statement.bare) code ↔ Accepted script code := by
  have made : (∀ call ∈ calls (script.map Statement.bare), ∃ directive,
      call.directive (labelsOf (script.map Statement.bare)) = .ok directive) ↔
      ∀ call ∈ calls script, ∃ directive, call.directive (labelsOf script) = .ok directive := by
    simp [calls_map_bare, labelsOf_map_bare, Call.directive_eq_ok_iff, makes_bare_iff]
  constructor
  · intro accepted
    refine ⟨?_, made.mp accepted.made, ?_⟩
    · simpa [definedNames_map_bare] using accepted.unique
    · simpa [labelsOf_map_bare, emitted_map_bare] using accepted.bytes
  · intro accepted
    refine ⟨?_, made.mpr accepted.made, ?_⟩
    · simpa [definedNames_map_bare] using accepted.unique
    · simpa [labelsOf_map_bare, emitted_map_bare] using accepted.bytes

/-- Whatever a script is compiled to, any layout of it is as well. -/
theorem Accepted.of_isLayout {source : String} {script : List Statement} {code : Bytecode}
    (accepted : Accepted script code) (layout : IsLayout source script) :
    ∃ found, parse source = .ok found ∧ found.map Statement.bare = script.map Statement.bare ∧
      Accepted found code := by
  obtain ⟨placed, spelled, same⟩ := layout
  obtain ⟨found, parsed, same'⟩ := parse_of_scriptText spelled
  refine ⟨found, parsed, same'.trans same, ?_⟩
  rw [← accepted_map_bare_iff, same', same, accepted_map_bare_iff]
  exact accepted

/-- Its lines are such a layout. -/
theorem compile_linesOf {script : List Statement} {code : Bytecode}
    (writable : ∀ statement ∈ script, statement.Writable) (accepted : Accepted script code) :
    ∃ found, parse (linesOf script) = .ok found ∧ compile found = .ok code := by
  obtain ⟨found, parsed, -, accepted'⟩ := accepted.of_isLayout (isLayout_linesOf writable)
  exact ⟨found, parsed, compile_eq_ok_iff.mpr accepted'⟩

end Sequencer.Script
