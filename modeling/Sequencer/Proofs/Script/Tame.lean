import Sequencer.Proofs.Script.LabelTargets
import Sequencer.Proofs.Track.Program

/-!
# Scripts that compile to programs

A script that jumps to labels only, and writes no raw byte that could be taken for
an opcode, compiles to a program that keeps to its instructions.

* `Tame` — the condition on a script.
* `instructionsOf` — what its calls are decoded as.
* `Accepted.exists_program_body` — they are the body of a `Program`.
-/

namespace Sequencer.Script

/-- Whether a call jumps to labels only, and writes only raw bytes that are played as they are. -/
structure Call.Tame (call : Call) : Prop where
  jumps : ∀ condition, call.name = (Opcode.jump condition).mnemonic →
    ∀ argument ∈ call.arguments, ∃ name, argument.value = .label name
  bytes : call.name = dataMnemonic → ∀ argument ∈ call.arguments, ∀ value,
    argument.value = .number value →
      (Operand.integer value).byte = 0 ∨ IsBareNote (Operand.integer value).byte

def Tame (script : List Statement) : Prop :=
  ∀ call ∈ calls script, call.Tame

@[simp] theorem tame_nil : Tame [] := by
  simp [Tame, calls]

@[simp] theorem tame_call_cons {call : Call} {script : List Statement} :
    Tame (.call call :: script) ↔ call.Tame ∧ Tame script :=
  List.forall_mem_cons

theorem Call.tame_of_opcode {call : Call} {opcode : Opcode} (name : call.name = opcode.mnemonic)
    (other : ∀ condition, opcode ≠ .jump condition) : call.Tame := by
  constructor
  · intro condition jump
    exact absurd (Opcode.mnemonic_injective (name.symm.trans jump)) (other condition)
  · intro data
    exact absurd (name.symm.trans data) (mnemonic_ne_dataMnemonic opcode)

theorem Call.tame_of_jump {call : Call} {condition : Condition}
    (name : call.name = (Opcode.jump condition).mnemonic)
    (labelled : ∀ argument ∈ call.arguments, ∃ label, argument.value = .label label) : call.Tame :=
  ⟨fun _ _ => labelled, fun data => absurd (name.symm.trans data) (mnemonic_ne_dataMnemonic _)⟩

/-- What the calls of a part of a script are decoded as. -/
def instructionsOf (labels : Labels) (part : List Statement) : List Instruction :=
  (written labels part).flatMap Directive.instructions

theorem instructionsOf_call {labels : Labels} {made : Call} {directive : Directive}
    (part : List Statement) (known : made.directive labels = .ok directive) :
    instructionsOf labels (.call made :: part) =
      directive.instructions ++ instructionsOf labels part := by
  simp [instructionsOf, written, calls, Statement.call?, known, Except.toOption]

theorem bytesOf_instructionsOf (labels : Labels) (part : List Statement) :
    bytesOf (instructionsOf labels part) = emitted labels part := by
  rw [bytesOf, instructionsOf, List.flatMap_assoc, emitted]
  exact congrArg (List.flatMap · _) (funext Directive.flatMap_encode_instructions)

theorem mem_instructionsOf {labels : Labels} {part : List Statement} {instruction : Instruction}
    (member : instruction ∈ instructionsOf labels part) :
    ∃ call ∈ calls part, ∃ directive, Makes labels call directive ∧
      instruction ∈ directive.instructions := by
  obtain ⟨directive, isWritten, member⟩ := List.mem_flatMap.mp member
  obtain ⟨call, isCall, made⟩ := List.mem_filterMap.mp isWritten
  refine ⟨call, isCall, directive, Call.directive_eq_ok_iff.mp ?_, member⟩
  cases known : call.directive labels with
  | error fault => simp [known, Except.toOption] at made
  | ok directive' => simpa [known, Except.toOption] using made

theorem Makes.canonical {labels : Labels} {call : Call} {directive : Directive}
    (makes : Makes labels call directive) (tame : call.Tame) :
    ∀ instruction ∈ directive.instructions, instruction.Canonical := by
  intro instruction member
  cases makes with
  | plain | operand =>
    obtain rfl := List.mem_singleton.mp member
    exact Instruction.canonical_ofOpcode _ _ _
  | @data operands name given =>
    obtain ⟨operand, isOperand, rfl⟩ := List.mem_map.mp member
    obtain ⟨argument, isArgument, known⟩ := exists_of_mem_of_forall₂ given isOperand
    obtain ⟨value, number, rfl⟩ | ⟨_, _, -, wide, -⟩ := Argument.operand_eq_ok_iff.mp known
    · exact Instruction.canonical_ofDataByte (tame.bytes name argument isArgument value number)
    · cases wide

theorem eq_jump_of_ofOpcode {opcode : Opcode} {narrow : UInt8} {wide target : UInt16}
    {condition : Condition} (same : .jump condition target = Instruction.ofOpcode opcode narrow wide) :
    opcode = .jump condition ∧ wide = target := by
  cases opcode <;> simp_all [Instruction.ofOpcode]

theorem Makes.jump_target {labels : Labels} {call : Call} {directive : Directive}
    {condition : Condition} {target : UInt16} (makes : Makes labels call directive)
    (tame : call.Tame) (member : .jump condition target ∈ directive.instructions) :
    ∃ name offset, labels.lookup name = some offset ∧ target = UInt16.ofNat offset := by
  cases makes with
  | data name given =>
    obtain ⟨operand, -, same⟩ := List.mem_map.mp member
    simp only [Instruction.ofDataByte] at same
    split at same <;> cases same
  | plain name width given =>
    obtain ⟨rfl, -⟩ := eq_jump_of_ofOpcode (List.mem_singleton.mp member)
    cases width
  | @operand opcode argument operand name width given value =>
    obtain ⟨rfl, rfl⟩ := eq_jump_of_ofOpcode (List.mem_singleton.mp member)
    obtain ⟨label, labelled⟩ := tame.jumps condition name argument (by simp [given])
    obtain ⟨number, wrong, -⟩ | ⟨_, offset, -, -, found, rfl⟩ := Argument.operand_eq_ok_iff.mp value
    · rw [labelled] at wrong
      cases wrong
    · exact ⟨_, offset, found, by simp [Operand.word, Operand.magnitude]⟩

/-- A label stands for where an instruction starts, if only the last `halt`. -/
theorem Accepted.starts_label {script : List Statement} {code : Bytecode}
    (accepted : Accepted script code) {name : String} {offset : Nat}
    (found : (labelsOf script).lookup name = some offset) :
    ∃ instruction, Starts (instructionsOf (labelsOf script) script ++ [.halt]) offset instruction := by
  obtain ⟨before, span, after, split, rfl⟩ := accepted.label_eq_length_emitted found
  generalize labelsOf script = labels
  have parts : instructionsOf labels script =
      instructionsOf labels before ++ instructionsOf labels after := by
    rw [split, instructionsOf, written_append, List.flatMap_append]
    rfl
  rw [← bytesOf_instructionsOf, parts]
  cases following : instructionsOf labels after with
  | nil => exact ⟨.halt, instructionsOf labels before, [], by simp, rfl⟩
  | cons next rest =>
    exact ⟨next, instructionsOf labels before, rest ++ [.halt], by simp, rfl⟩

/-- The bytes of an accepted script are those of its instructions and of a `halt`. -/
theorem Accepted.bytesOf_eq {script : List Statement} {code : Bytecode}
    (accepted : Accepted script code) :
    bytesOf (instructionsOf (labelsOf script) script ++ [.halt]) = code.toList := by
  rw [bytesOf_append, bytesOf_instructionsOf, accepted.bytes]
  rfl

theorem Accepted.length_bytesOf {script : List Statement} {code : Bytecode}
    (accepted : Accepted script code) :
    (bytesOf (instructionsOf (labelsOf script) script ++ [.halt])).length = code.size := by
  rw [accepted.bytesOf_eq, Array.length_toList]

theorem Tame.canonical {script : List Statement} (tame : Tame script) {labels : Labels}
    {instruction : Instruction} (member : instruction ∈ instructionsOf labels script) :
    instruction.Canonical := by
  obtain ⟨call, isCall, directive, makes, member⟩ := mem_instructionsOf member
  exact makes.canonical (tame call isCall) instruction member

/-- Jumps lead to instructions, if no label is cut to 16 bits. -/
theorem Accepted.starts_target {script : List Statement} {code : Bytecode}
    (accepted : Accepted script code) (tame : Tame script) (short : code.size ≤ 65536)
    {condition : Condition} {target : UInt16}
    (member : .jump condition target ∈ instructionsOf (labelsOf script) script) :
    ∃ instruction, Starts (instructionsOf (labelsOf script) script ++ [.halt]) target.toNat
      instruction := by
  obtain ⟨call, isCall, directive, makes, member⟩ := mem_instructionsOf member
  obtain ⟨name, offset, found, rfl⟩ := makes.jump_target (tame call isCall) member
  obtain ⟨instruction, starts⟩ := accepted.starts_label found
  have within : offset < 65536 := by
    have nonempty := instruction.size_pos
    obtain ⟨before, after, split, rfl⟩ := starts
    have total := accepted.length_bytesOf
    rw [split, bytesOf_append, bytesOf_cons, List.length_append, List.length_append,
      Instruction.length_encode] at total
    omega
  rw [UInt16.toNat_ofNat', Nat.mod_eq_of_lt within]
  exact ⟨instruction, starts⟩

/-- What a tame script compiles to is a routine, if a cursor can reach all of it. -/
theorem Accepted.exists_routine_body {script : List Statement} {code : Bytecode}
    (accepted : Accepted script code) (tame : Tame script) (short : code.size < 65536) :
    ∃ routine : Routine, routine.body = instructionsOf (labelsOf script) script ∧
      bytesOf routine.instructions = code.toList := by
  have size := accepted.length_bytesOf
  exact ⟨{
    body := instructionsOf (labelsOf script) script
    canonical := fun _ => tame.canonical
    targets := fun _ _ => accepted.starts_target tame (by omega)
    fits := by omega }, rfl, accepted.bytesOf_eq⟩

/-- It is a program, if its labels fit into a byte. -/
theorem Accepted.exists_program_body {script : List Statement} {code : Bytecode}
    (accepted : Accepted script code) (tame : Tame script) (short : code.size ≤ 256) :
    ∃ program : Program, program.body = instructionsOf (labelsOf script) script ∧
      bytesOf program.instructions = code.toList := by
  obtain ⟨routine, body, bytes⟩ := accepted.exists_routine_body tame (by omega)
  refine ⟨{ routine with short := ?_ }, body, bytes⟩
  rw [body, accepted.length_bytesOf]
  exact short

theorem Accepted.exists_program {script : List Statement} {code : Bytecode}
    (accepted : Accepted script code) (tame : Tame script) (short : code.size ≤ 256) :
    ∃ program : Program, bytesOf program.instructions = code.toList := by
  obtain ⟨program, -, bytes⟩ := accepted.exists_program_body tame short
  exact ⟨program, bytes⟩

/-- In code of at most 256 bytes the last byte of a jump is a zero. -/
theorem Accepted.high_of_starts {script : List Statement} {code : Bytecode}
    (accepted : Accepted script code) (tame : Tame script) (short : code.size ≤ 256) {offset : Nat}
    {condition : Condition} {target : UInt16}
    (starts : Starts (instructionsOf (labelsOf script) script) offset (.jump condition target)) :
    target.toNat < code.size ∧ code.decode (offset + 2) = .nop := by
  obtain ⟨program, body, bytes⟩ := accepted.exists_program_body tame short
  have size := Routine.size_eq bytes
  have layout : code.toList = [] ++ (bytesOf program.instructions ++ []) := by simp [bytes]
  obtain ⟨before, after, split, rfl⟩ := starts
  have starts : Starts program.instructions (bytesOf before).length (.jump condition target) :=
    ⟨before, after ++ [.halt], by simp [Routine.instructions, body, split], rfl⟩
  have fits : (bytesOf before).length + 3 ≤ program.size := Routine.end_le_size starts
  obtain ⟨first, reached⟩ := Routine.targets_of_starts starts
  have place : (UInt16.ofNat ((bytesOf before).length + 2)).toNat = (bytesOf before).length + 2 := by
    rw [UInt16.toNat_ofNat']
    omega
  have zero := (program.placed_decode layout rfl).high _ _ _ _ place starts
  rw [place, List.length_nil, Nat.zero_add] at zero
  exact ⟨size ▸ (Routine.Inside.start reached).lt_size, zero⟩

end Sequencer.Script
