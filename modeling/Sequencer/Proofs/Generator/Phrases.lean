import Sequencer.Generator.Plan
import Sequencer.Proofs.Script.Tame
import Sequencer.Proofs.Script.Writing

/-!
# Phrases as statements

A phrase is a statement with a spelling, so what has been written in phrases is read
back as their statements.

* `Phrase.statement` — the statement, wherever it may stand.
* `Phrase.Sound` — a phrase that can be written, read and compiled where the given labels
  are defined.
* `Phrase.instructions` — what a phrase is decoded as.
* `isLayout_lines` — lines of sound phrases are a layout of their statements.
* `exists_accepted` — sound phrases are compiled, to as many bytes as they take.
-/

namespace Sequencer

/-- Spans play no part in what is tame. -/
theorem Script.tame_map_bare_iff {script : List Script.Statement} :
    Script.Tame (script.map Script.Statement.bare) ↔ Script.Tame script := by
  have same : ∀ call : Script.Call, call.bare.Tame ↔ call.Tame := by
    intro call
    constructor
    · intro tame
      refine ⟨fun condition name argument given => ?_, fun name argument given value number => ?_⟩
      · exact tame.jumps condition name argument.bare (List.mem_map_of_mem given)
      · exact tame.bytes name argument.bare (List.mem_map_of_mem given) value number
    · intro tame
      refine ⟨fun condition name => ?_, fun name => ?_⟩
      · exact List.forall_mem_map.mpr (tame.jumps condition name)
      · exact List.forall_mem_map.mpr (tame.bytes name)
  simp only [Script.Tame, Script.calls_map_bare, List.forall_mem_map, same]

namespace Generator

open Script (Statement Call Writes Spells)

/-! ## Statements -/

def Term.value : Term → Script.Value
  | decimal value | hexadecimal value => .number value
  | label name => .label name

/-- The statement that a phrase spells. -/
def Phrase.statement : Phrase → Statement
  | define label => .label label default
  | data value => .call ⟨Script.dataMnemonic, [⟨.number value, default⟩], default⟩
  | plain opcode => .call ⟨opcode.mnemonic, [], default⟩
  | apply opcode argument => .call ⟨opcode.mnemonic, [⟨argument.value, default⟩], default⟩

/-- What a term stands for. -/
def Term.operand (labels : Script.Labels) : Term → Nat
  | decimal value | hexadecimal value => value
  | label name => (labels.lookup name).getD 0

/-- The instruction that a phrase is decoded as.  A definition has none. -/
def Phrase.instructions (labels : Script.Labels) : Phrase → List Instruction
  | define _ => []
  | data value => [.ofDataByte (UInt8.ofNat value)]
  | plain opcode => [.ofOpcode opcode 0 0]
  | apply opcode argument =>
    [.ofOpcode opcode (UInt8.ofNat (argument.operand labels))
      (UInt16.ofNat (argument.operand labels))]

/-- Whether a phrase can be written and compiled where labels with these names are defined. -/
inductive Phrase.Sound (names : List String) : Phrase → Prop where
  | define {label : String} (named : Script.isName label = true) : Sound names (.define label)
  | data {value : Nat} (small : value < 256) (bare : IsBareNote (UInt8.ofNat value)) :
      Sound names (.data value)
  | plain {opcode : Opcode} (width : opcode.width = .none) : Sound names (.plain opcode)
  | number {opcode : Opcode} {argument : Term} {value : Nat} (width : opcode.width ≠ .none)
      (other : ∀ condition, opcode ≠ .jump condition)
      (spelled : argument = .decimal value ∨ argument = .hexadecimal value)
      (fits : value ≤ Script.greatestMagnitude) : Sound names (.apply opcode argument)
  | jump {condition : Condition} {label : String} (named : Script.isName label = true)
      (defined : label ∈ names) : Sound names (.apply (.jump condition) (.label label))

namespace Phrase

variable {names : List String} {phrase : Phrase}

theorem Sound.of_number {opcode : Opcode} {value : Nat} (small : value < 0x10000)
    (width : opcode.width ≠ .none) (other : ∀ condition, opcode ≠ .jump condition) :
    (Phrase.number opcode value).Sound names := by
  refine .number width other (.inl rfl) ?_
  rw [Script.greatestMagnitude]
  omega

/-- The text of a sound phrase is read as its statement. -/
theorem Sound.writes (sound : phrase.Sound names) :
    Writes phrase.text.toList [phrase.statement] := by
  have number : ∀ {value : Nat}, value ≤ Script.greatestMagnitude → ∀ {text : String},
      Script.MagnitudeText text.toList value → Spells text ⟨.number value, default⟩ :=
    fun fits _ spelled => .number (.unsigned spelled fits)
  cases sound with
  | define named =>
    exact Script.writes_statement fun offset =>
      Script.exists_labelText offset _ (Script.nameText_of_isName named)
  | @data value small bare =>
    have fits : value ≤ Script.greatestMagnitude := by
      rw [Script.greatestMagnitude]
      omega
    exact Script.writes_statement fun offset =>
      Script.exists_callText offset (Script.nameText_of_isName Script.isName_dataMnemonic)
        (.cons (number fits (Script.magnitudeText_decimal value)) .nil)
  | plain width =>
    exact Script.writes_statement fun offset =>
      Script.exists_callText offset (Script.nameText_of_isName (Script.isName_mnemonic _)) .nil
  | @number opcode argument value width other spelled fits =>
    have spells : Spells argument.text ⟨argument.value, default⟩ := by
      obtain rfl | rfl := spelled
      · exact number fits (Script.magnitudeText_decimal value)
      · exact number fits (Script.magnitudeText_hexadecimal value)
    exact Script.writes_statement fun offset =>
      Script.exists_callText offset (Script.nameText_of_isName (Script.isName_mnemonic _))
        (.cons spells .nil)
  | jump named defined =>
    exact Script.writes_statement fun offset =>
      Script.exists_callText offset (Script.nameText_of_isName (Script.isName_mnemonic _))
        (.cons (.label (Script.nameText_of_isName named)) .nil)

/-- The call of a sound phrase is compiled, to the instruction of the phrase. -/
theorem Sound.exists_directive (sound : phrase.Sound names) {labels : Script.Labels}
    (known : ∀ name ∈ names, (labels.lookup name).isSome) {call : Call}
    (isCall : phrase.statement = .call call) :
    ∃ directive, call.directive labels = .ok directive ∧
      directive.instructions = phrase.instructions labels := by
  cases sound with
  | define => cases isCall
  | @data value =>
    cases isCall
    refine ⟨.data [.integer value], (Script.Makes.data rfl ?_).directive, rfl⟩
    exact List.forall₂_cons.mpr ⟨rfl, .nil⟩
  | plain width =>
    cases isCall
    exact ⟨_, (Script.Makes.plain rfl width rfl).directive, rfl⟩
  | number width other spelled =>
    cases isCall
    obtain rfl | rfl := spelled <;>
      exact ⟨_, (Script.Makes.operand rfl width rfl rfl).directive, rfl⟩
  | @jump condition label named defined =>
    cases isCall
    obtain ⟨offset, found⟩ := Option.isSome_iff_exists.mp (known label defined)
    have value : Script.Argument.operand labels .word ⟨.label label, default⟩ =
        .ok (.integer (offset : Nat)) :=
      Script.Argument.operand_eq_ok_iff.mpr (.inr ⟨label, offset, rfl, rfl, found, rfl⟩)
    refine ⟨_, (Script.Makes.operand rfl (by simp [Opcode.width]) rfl value).directive, ?_⟩
    rw [Phrase.instructions, Term.operand, found]
    rfl

theorem Sound.tame (sound : phrase.Sound names) {call : Call}
    (isCall : phrase.statement = .call call) : call.Tame := by
  cases sound with
  | define => cases isCall
  | data small bare =>
    cases isCall
    refine ⟨fun condition name => absurd name.symm (Script.mnemonic_ne_dataMnemonic _), ?_⟩
    intro _ argument given value number
    obtain rfl := List.mem_singleton.mp given
    cases number
    exact .inr bare
  | @plain opcode width =>
    cases isCall
    refine Script.Call.tame_of_opcode (show _ = opcode.mnemonic from rfl) ?_
    rintro condition rfl
    cases width
  | @number opcode _ _ _ other =>
    cases isCall
    exact Script.Call.tame_of_opcode (show _ = opcode.mnemonic from rfl) other
  | jump named defined =>
    cases isCall
    exact Script.Call.tame_of_jump rfl (List.forall_mem_singleton.mpr ⟨_, rfl⟩)

end Phrase

section Phrases

variable {phrases : List Phrase}

theorem mem_calls_map_statement {call : Call}
    (member : call ∈ Script.calls (phrases.map Phrase.statement)) :
    ∃ phrase ∈ phrases, phrase.statement = .call call := by
  obtain ⟨statement, isStatement, isCall⟩ := List.mem_filterMap.mp member
  obtain ⟨phrase, isPhrase, rfl⟩ := List.mem_map.mp isStatement
  refine ⟨phrase, isPhrase, ?_⟩
  cases known : phrase.statement with
  | label name span =>
    rw [known] at isCall
    cases isCall
  | call made =>
    rw [known] at isCall
    cases isCall
    rfl

theorem mem_definedNames_map_statement_iff {name : String} :
    name ∈ Script.definedNames (phrases.map Phrase.statement) ↔ .define name ∈ phrases := by
  simp only [Script.definedNames, List.mem_filterMap, List.mem_map]
  constructor
  · rintro ⟨statement, ⟨phrase, member, rfl⟩, found⟩
    cases phrase with
    | define label =>
      cases found
      exact member
    | _ => cases found
  · exact fun member => ⟨_, ⟨_, member, rfl⟩, rfl⟩

/-- Lines of sound phrases are a layout of their statements. -/
theorem isLayout_lines {names : List String} {lines : List (List Phrase)}
    (sound : ∀ phrase ∈ lines.flatten, phrase.Sound names) :
    Script.IsLayout
      ("\n".intercalate (lines.map fun phrases => " ".intercalate (phrases.map Phrase.text)))
      (lines.flatten.map Phrase.statement) := by
  have space : Script.Gap " ".toList := .blank (by decide) .nil
  have line : ∀ phrases ∈ lines, Writes (" ".intercalate (phrases.map Phrase.text)).toList
      (phrases.map Phrase.statement) := by
    intro phrases isLine
    have writes : List.Forall₂ (fun text part => Writes text.toList part)
        (phrases.map Phrase.text) (phrases.map ([·.statement])) := by
      rw [List.forall₂_map_left_iff, List.forall₂_map_right_iff, List.forall₂_same]
      exact fun phrase member =>
        (sound phrase (List.mem_flatten.mpr ⟨phrases, isLine, member⟩)).writes
    have whole := Script.writes_intercalate space writes
    rwa [← List.flatMap_def, ← List.map_eq_flatMap] at whole
  have writes : List.Forall₂ (fun text part => Writes text.toList part)
      (lines.map fun phrases => " ".intercalate (phrases.map Phrase.text))
      (lines.map (List.map Phrase.statement)) := by
    rw [List.forall₂_map_left_iff, List.forall₂_map_right_iff, List.forall₂_same]
    exact line
  rw [List.map_flatten]
  exact (Script.writes_intercalate Script.gap_newline writes).isLayout

/-- Sound phrases are decoded one by one. -/
theorem instructionsOf_map_statement {names : List String} {labels : Script.Labels}
    (sound : ∀ phrase ∈ phrases, phrase.Sound names)
    (known : ∀ name ∈ names, (labels.lookup name).isSome) :
    Script.instructionsOf labels (phrases.map Phrase.statement) =
      phrases.flatMap (Phrase.instructions labels) := by
  induction phrases with
  | nil => rfl
  | cons phrase phrases ih =>
    obtain ⟨first, rest⟩ := List.forall_mem_cons.mp sound
    rw [List.map_cons, List.flatMap_cons, ← ih rest]
    cases statement : phrase.statement with
    | label name span =>
      cases first with
      | define => rfl
      | _ => cases statement
    | call call =>
      obtain ⟨directive, made, instructions⟩ := first.exists_directive known statement
      rw [Script.instructionsOf_call _ made, instructions]

/-- Sound phrases are compiled, to as many bytes as they take and a `halt`. -/
theorem exists_accepted
    (unique : (Script.definedNames (phrases.map Phrase.statement)).Nodup)
    (sound : ∀ phrase ∈ phrases,
      phrase.Sound (Script.definedNames (phrases.map Phrase.statement))) :
    ∃ code, Script.Accepted (phrases.map Phrase.statement) code ∧
      code.size = Script.extent (phrases.map Phrase.statement) + 1 := by
  have made : ∀ call ∈ Script.calls (phrases.map Phrase.statement), ∃ directive,
      call.directive (Script.labelsOf (phrases.map Phrase.statement)) = .ok directive := by
    intro call member
    obtain ⟨phrase, isPhrase, isCall⟩ := mem_calls_map_statement member
    exact ((sound phrase isPhrase).exists_directive
      (fun name => Script.isSome_lookup_labelsOf_iff.mpr) isCall).imp fun _ => And.left
  refine ⟨⟨_⟩, ⟨unique, made, rfl⟩, ?_⟩
  rw [← Array.length_toList, List.length_append, Script.length_emitted made]
  rfl

theorem tame_map_statement {names : List String} (sound : ∀ phrase ∈ phrases, phrase.Sound names) :
    Script.Tame (phrases.map Phrase.statement) := by
  intro call member
  obtain ⟨phrase, isPhrase, isCall⟩ := mem_calls_map_statement member
  exact (sound phrase isPhrase).tame isCall

end Phrases

end Generator

end Sequencer
