import Sequencer.Generator
import Sequencer.Proofs.Generator.Phrases

/-!
# Generated scripts

Every plan of at most eleven steps is a script that is read, compiled and small, and a
drawn plan has at most eleven.

* `Figure.sound_phrases`, `Figure.definedNames_sublist`, `Figure.extent_le` — what a
  step says, defines and takes.
* `Plan.script`, `Plan.isLayout_text` — the statements of a plan, and its text.
* `WellFormed`, `Plan.exists_wellFormed` — they are read and compiled, and small.
* `length_of_drawPlan` — how many steps are drawn.
-/

namespace Sequencer.Generator

open Script (Statement definedNames)

/-! ## Figures -/

/-- The label behind the note that a step jumps over. -/
def skipLabel (number : Nat) : String :=
  "skip" ++ Text.decimal number

theorem isName_skipLabel (number : Nat) : Script.isName (skipLabel number) = true :=
  Script.isName_append_decimal (by decide) number

namespace Figure

variable {figure : Figure} {note number : Nat}

/-- A step defines no label but its own. -/
theorem definedNames_sublist (figure : Figure) (note number : Nat) :
    (definedNames ((figure.phrases note number).map Phrase.statement)).Sublist
      [skipLabel number] := by
  cases figure with
  | leap value => exact .refl _
  | leapUnless value limit => exact .refl _
  | _ => exact List.nil_sublist _

theorem extent_le (figure : Figure) (note number : Nat) :
    Script.extent ((figure.phrases note number).map Phrase.statement) ≤ 11 := by
  cases figure <;>
    simp [phrases, Phrase.number, Phrase.statement, Script.extent, Script.Call.size,
      Script.mnemonic_ne_dataMnemonic, Opcode.size, Opcode.width, Width.size]

theorem sound_phrases {names : List String} (low : 0 < note) (high : note + 12 < 0xE5)
    (defined : ∀ name, .define name ∈ figure.phrases note number → name ∈ names) :
    ∀ phrase ∈ figure.phrases note number, phrase.Sound names := by
  cases figure with
  | rawNote =>
    refine List.forall_mem_singleton.mpr (.data (by omega) (.inl ⟨?_, ?_⟩))
    · rw [UInt8.le_iff_toNat_le, UInt8.toNat_ofNat']
      show 1 ≤ note % 256
      omega
    · rw [UInt8.le_iff_toNat_le, UInt8.toNat_ofNat']
      show note % 256 ≤ 0xE5
      omega
  | external code =>
    have fits : code.val ≤ Script.greatestMagnitude := by
      rw [Script.greatestMagnitude]
      omega
    exact List.forall_mem_singleton.mpr (.number (by decide) (by simp) (.inr rfl) fits)
  | leap value =>
    have skip : skipLabel number ∈ names := defined _ (by simp [phrases, skipLabel])
    have named := isName_skipLabel number
    simp only [phrases, List.forall_mem_cons]
    refine ⟨.of_number (by omega) (by decide) (by simp),
      .of_number (by omega) (by decide) (by simp), .jump named skip,
      .of_number (by omega) (by decide) (by simp), .define named, List.forall_mem_nil _⟩
  | leapUnless value limit =>
    have skip : skipLabel number ∈ names := defined _ (by simp [phrases, skipLabel])
    have named := isName_skipLabel number
    simp only [phrases, List.forall_mem_cons]
    refine ⟨.of_number (by omega) (by decide) (by simp),
      .of_number (by omega) (by decide) (by simp), .jump named skip,
      .of_number (by omega) (by decide) (by simp),
      .of_number (by omega) (by decide) (by simp), .define named, List.forall_mem_nil _⟩
  | _ =>
    -- the others are made of numbers and of opcodes that take none
    simp only [phrases, List.forall_mem_cons, List.not_mem_nil, false_implies, implies_true]
    and_intros <;>
      first
      | exact .plain rfl
      | exact .of_number (by omega) (by decide) (by simp)
      | trivial

end Figure

/-! ## Plans -/

theorem skipLabel_injective : Function.Injective skipLabel := by
  intro number other same
  have texts := congrArg String.toList same
  rw [skipLabel, skipLabel, String.toList_append, String.toList_append,
    List.append_cancel_left_eq, String.toList_inj] at texts
  exact Script.decimal_injective texts

/-- The steps define labels of their own, in order. -/
theorem definedNames_steps_sublist (plan : Plan) (steps : List Step) (start : Nat) :
    (definedNames (((steps.zipIdx start).flatMap fun (step, number) =>
      step.figure.phrases (plan.note step) number).map Phrase.statement)).Sublist
      ((List.range' start steps.length).map skipLabel) := by
  induction steps generalizing start with
  | nil => exact List.nil_sublist _
  | cons step steps ih =>
    rw [List.zipIdx_cons, List.flatMap_cons, List.map_append, Script.definedNames_append,
      List.length_cons, List.range'_succ, List.map_cons]
    exact (step.figure.definedNames_sublist _ start).append (ih (start + 1))

theorem extent_steps_le (plan : Plan) (steps : List (Step × Nat)) :
    Script.extent ((steps.flatMap fun (step, number) =>
      step.figure.phrases (plan.note step) number).map Phrase.statement) ≤ 11 * steps.length := by
  induction steps with
  | nil => exact Nat.le_refl 0
  | cons entry steps ih =>
    obtain ⟨step, number⟩ := entry
    have first := step.figure.extent_le (plan.note step) number
    rw [List.flatMap_cons, List.map_append, Script.extent_append, List.length_cons]
    exact Nat.le_trans (Nat.add_le_add first ih) (by omega)

/-- A text that is parsed and compiled, to so few bytes that the high bytes of all targets are
zeros.  Each label is defined once, and those that are used are defined. -/
structure WellFormed (text : String) (script : List Statement) (code : Bytecode) : Prop where
  parsed : Script.parse text = .ok script
  compiled : Script.compile script = .ok code
  short : code.size < 256
  unique : (definedNames script).Nodup
  defined : ∀ call ∈ Script.calls script, ∀ argument ∈ call.arguments, ∀ name,
    argument.value = .label name → name ∈ definedNames script
  high : ∀ offset condition target,
    Starts (Script.instructionsOf (Script.labelsOf script) script) offset (.jump condition target) →
      target.toNat < code.size ∧ code.decode (offset + 2) = .nop

namespace Plan

variable (plan : Plan)

/-- All phrases of the script. -/
def phrases : List Phrase :=
  plan.lines.flatten

/-- The statements of the script. -/
def script : List Statement :=
  plan.phrases.map Phrase.statement

theorem phrases_eq : plan.phrases =
    [.number .instrument plan.instrument, .number .ticks plan.rate, .define plan.riffLabel,
        .plain .markSection] ++
      (plan.steps.zipIdx.flatMap fun (step, number) =>
        step.figure.phrases (plan.note step) number) ++ [plan.last] := by
  simp [phrases, lines, List.flatMap_def]

/-- Every note is a byte, and so is the note an octave above. -/
theorem note_bounds (step : Step) : 24 ≤ plan.note step ∧ plan.note step + 12 ≤ 75 := by
  have interval : ∀ degree : Fin 10, scale[degree] ≤ 16 := by decide
  have own := interval step.degree
  have root := plan.root.isLt
  rw [note]
  omega

theorem isName_riffLabel : Script.isName plan.riffLabel = true :=
  Script.isName_append_decimal (by decide) plan.riff

theorem definedNames_script_sublist : (definedNames plan.script).Sublist
    (plan.riffLabel :: (List.range plan.steps.length).map skipLabel) := by
  have last : definedNames [plan.last.statement] = [] := by
    rw [Plan.last]
    split <;> rfl
  rw [script, phrases_eq, List.map_append, List.map_append, Script.definedNames_append,
    Script.definedNames_append, List.map_singleton, last, List.append_nil, List.range_eq_range']
  exact (definedNames_steps_sublist plan plan.steps 0).cons_cons _

theorem nodup_definedNames : (definedNames plan.script).Nodup := by
  refine plan.definedNames_script_sublist.nodup (List.nodup_cons.mpr ⟨?_, ?_⟩)
  · intro member
    obtain ⟨number, -, same⟩ := List.mem_map.mp member
    have first := congrArg (·.toList.head?) same
    simp [skipLabel, riffLabel] at first
  · exact List.nodup_range.map skipLabel_injective

theorem sound_last : plan.last.Sound (definedNames plan.script) := by
  rw [last]
  split
  · refine .jump plan.isName_riffLabel (mem_definedNames_map_statement_iff.mpr ?_)
    simp [phrases_eq]
  · exact .plain rfl
  · exact .plain rfl

theorem sound_phrases : ∀ phrase ∈ plan.phrases, phrase.Sound (definedNames plan.script) := by
  rw [phrases_eq, List.forall_mem_append, List.forall_mem_append]
  refine ⟨⟨?_, ?_⟩, List.forall_mem_singleton.mpr plan.sound_last⟩
  · simp only [List.forall_mem_cons]
    exact ⟨.of_number (by omega) (by decide) (by simp),
      .of_number (by omega) (by decide) (by simp), .define plan.isName_riffLabel, .plain rfl,
      List.forall_mem_nil _⟩
  · intro phrase member
    obtain ⟨⟨step, number⟩, isStep, own⟩ := List.mem_flatMap.mp member
    obtain ⟨low, high⟩ := plan.note_bounds step
    refine Figure.sound_phrases (by omega) (by omega) ?_ phrase own
    intro name defined
    refine mem_definedNames_map_statement_iff.mpr ?_
    rw [phrases_eq]
    exact List.mem_append_left _ (List.mem_append_right _
      (List.mem_flatMap.mpr ⟨(step, number), isStep, defined⟩))

theorem extent_script_le : Script.extent plan.script ≤ 8 + 11 * plan.steps.length := by
  have steps := extent_steps_le plan plan.steps.zipIdx
  have header : Script.extent ([.number .instrument plan.instrument, .number .ticks plan.rate,
      .define plan.riffLabel, .plain .markSection].map Phrase.statement) = 5 := rfl
  have last : Script.extent [plan.last.statement] ≤ 3 := by
    rw [Plan.last]
    split <;>
      simp [Phrase.statement, Script.extent, Script.Call.size, Script.mnemonic_ne_dataMnemonic,
        Opcode.size, Opcode.width, Width.size]
  rw [List.length_zipIdx] at steps
  rw [script, phrases_eq, List.map_append, List.map_append, Script.extent_append,
    Script.extent_append, header, List.map_singleton]
  omega

/-- A plan of at most eleven steps is compiled. -/
theorem exists_accepted {plan : Plan} (few : plan.steps.length ≤ 11) :
    ∃ code, Script.Accepted plan.script code ∧ code.size ≤ 130 := by
  obtain ⟨code, accepted, size⟩ :=
    Generator.exists_accepted plan.nodup_definedNames plan.sound_phrases
  have small := plan.extent_script_le
  rw [script] at small
  exact ⟨code, accepted, by omega⟩

theorem isLayout_text : Script.IsLayout plan.text plan.script :=
  isLayout_lines plan.sound_phrases

/-- The text of a plan of at most eleven steps is well formed. -/
theorem exists_wellFormed {plan : Plan} (few : plan.steps.length ≤ 11) :
    ∃ script code, WellFormed plan.text script code := by
  obtain ⟨code, accepted, size⟩ := plan.exists_accepted few
  have short : code.size < 256 := by omega
  obtain ⟨script, parsed, same, accepted'⟩ := accepted.of_isLayout plan.isLayout_text
  have tame : Script.Tame script := by
    rw [← Script.tame_map_bare_iff, same, Script.tame_map_bare_iff]
    exact tame_map_statement plan.sound_phrases
  exact ⟨script, code, {
    parsed
    compiled := Script.compile_eq_ok_iff.mpr accepted'
    short
    unique := accepted'.unique
    defined := fun _ isCall _ given _ => accepted'.mem_definedNames isCall given
    high := fun _ _ _ => accepted'.high_of_starts tame (Nat.le_of_lt short) }⟩

end Plan

/-! ## Draws -/

theorem bind_eq_some_iff {α β : Type} {first : Draw α} {next : α → Draw β} {source : WordSource}
    {result : β × WordSource} :
    (first >>= next) source = some result ↔
      ∃ value rest, first source = some (value, rest) ∧ next value rest = some result := by
  show (first source).bind (fun drawn => next drawn.1 drawn.2) = some result ↔ _
  simp [Option.bind_eq_some_iff]

theorem length_of_drawSteps {count : Nat} {source rest : WordSource} {steps : List Step}
    (drawn : drawSteps count source = some (steps, rest)) : steps.length = count := by
  induction count generalizing source rest steps with
  | zero =>
    cases drawn
    rfl
  | succ count ih =>
    obtain ⟨step, source', -, drawn⟩ := bind_eq_some_iff.mp drawn
    obtain ⟨others, source'', drawn', last⟩ := bind_eq_some_iff.mp drawn
    cases last
    rw [List.length_cons, ih drawn']

/-- A drawn plan has two to eleven steps. -/
theorem length_of_drawPlan {source rest : WordSource} {plan : Plan}
    (drawn : drawPlan source = some (plan, rest)) :
    2 ≤ plan.steps.length ∧ plan.steps.length ≤ 11 := by
  obtain ⟨root, _, -, drawn⟩ := bind_eq_some_iff.mp drawn
  obtain ⟨riff, _, -, drawn⟩ := bind_eq_some_iff.mp drawn
  obtain ⟨instrument, _, -, drawn⟩ := bind_eq_some_iff.mp drawn
  obtain ⟨rate, _, -, drawn⟩ := bind_eq_some_iff.mp drawn
  obtain ⟨count, _, -, drawn⟩ := bind_eq_some_iff.mp drawn
  obtain ⟨steps, _, drawnSteps, drawn⟩ := bind_eq_some_iff.mp drawn
  obtain ⟨ending, _, -, last⟩ := bind_eq_some_iff.mp drawn
  cases last
  have few := count.isLt
  rw [length_of_drawSteps drawnSteps]
  omega

/-- A generated script is the text of a drawn plan, and it is well formed.  Its notes and the notes
an octave above fit into a byte. -/
theorem wellFormed_of_generate {source rest : WordSource} {text : String}
    (generated : generate source = some (text, rest)) :
    ∃ plan script code, drawPlan source = some (plan, rest) ∧ plan.text = text ∧
      24 + plan.root.val < 256 ∧ (∀ step ∈ plan.steps, plan.note step + 12 < 256) ∧
      WellFormed text script code := by
  obtain ⟨⟨plan, rest'⟩, drawn, same⟩ := Option.map_eq_some_iff.mp generated
  cases same
  obtain ⟨script, code, wellFormed⟩ := plan.exists_wellFormed (length_of_drawPlan drawn).2
  refine ⟨plan, script, code, drawn, rfl, by omega, ?_, wellFormed⟩
  intro step _
  have bounds := (plan.note_bounds step).2
  omega

/-- What the generator makes of the seed 0. -/
theorem wellFormed_seedZero :
    let text := "instrument(3)\nticks(2)\nriff10:\nsection()\n" ++
      "set(0) equal(0) ifjump(skip0) play(32) skip0:\nwait(8)\nset(4) instrumentset()\n" ++
      "nop()\nwait(7)\njump(riff10)"
    generate {} = some (text, { state := 1396697697608454411, drawn := 29 }) ∧
      ∃ script code, WellFormed text script code := by
  intro text
  have generated : generate {} = some (text, { state := 1396697697608454411, drawn := 29 }) := by
    decide +kernel
  obtain ⟨plan, script, code, -, -, -, -, wellFormed⟩ := wellFormed_of_generate generated
  exact ⟨generated, script, code, wellFormed⟩

end Sequencer.Generator
