import Sequencer.Bytecode.Disassembly
import Sequencer.Proofs.Invocation

/-!
# The disassembler undoes the assembler

Instructions have different sizes, so whatever is decoded at a wrong offset shifts all
that follows.  Written by the assembler, each one starts where the one before ends, and
the disassembler finds them all.

* `Line.sequence` — instructions laid out one after the other.
* `Bytecode.disassembleFrom_length` — a buffer of encoded instructions is disassembled
  into them.
* `Opcode.carried` — what is left of an operand in the width of an opcode.
* `Directive.lines`, `Directive.listing` — what is expected of a directive, and of several.
* `Line.Tiles` — lines that cover a stretch of a buffer without gap or overlap.
* `Assembler.disassemble_invokeAll` — the lines of an assembler's buffer are those of the
  methods that have been called.
-/

namespace Sequencer

/-! ## Instructions in a row -/

/-- The lines of instructions that stand one after the other from an offset on. -/
def Line.sequence (offset : Nat) : List Instruction → List Line
  | [] => []
  | instruction :: rest => ⟨offset, instruction⟩ :: sequence (offset + instruction.size) rest

theorem Line.sequence_append (offset : Nat) (first second : List Instruction) :
    sequence offset (first ++ second) =
      sequence offset first ++
        sequence (offset + (first.flatMap Instruction.encode).length) second := by
  induction first generalizing offset with
  | nil => rfl
  | cons instruction first ih =>
    rw [List.cons_append, sequence, ih, sequence, List.flatMap_cons, List.length_append,
      Instruction.length_encode, Nat.add_assoc]
    rfl

/-- Whether lines cover a stretch of a buffer, each starting where the one before ends. -/
def Line.Tiles (start stop : Nat) : List Line → Prop
  | [] => start = stop
  | line :: rest => line.offset = start ∧ Tiles (start + line.size) stop rest

theorem Line.tiles_sequence (offset : Nat) (instructions : List Instruction) :
    Tiles offset (offset + (instructions.flatMap Instruction.encode).length)
      (sequence offset instructions) := by
  induction instructions generalizing offset with
  | nil => rfl
  | cons instruction instructions ih =>
    refine ⟨rfl, ?_⟩
    rw [List.flatMap_cons, List.length_append, Instruction.length_encode, ← Nat.add_assoc]
    exact ih (offset + instruction.size)

/-- Encoded instructions behind any bytes are disassembled one by one. -/
theorem Bytecode.disassembleFrom_length {code : Bytecode} {before : List UInt8}
    {instructions : List Instruction}
    (canonical : ∀ instruction ∈ instructions, instruction.Canonical)
    (layout : code.toList = before ++ instructions.flatMap Instruction.encode) :
    code.disassembleFrom before.length [] = Line.sequence before.length instructions := by
  induction instructions generalizing before with
  | nil =>
    have ended : ¬before.length < code.size := by
      rw [← Array.length_toList, layout]
      simp
    rw [disassembleFrom, if_neg ended]
    rfl
  | cons instruction instructions ih =>
    rw [List.flatMap_cons] at layout
    have inside : before.length < code.size := by
      have positive := instruction.size_pos
      rw [← Array.length_toList, layout, List.length_append, List.length_append,
        Instruction.length_encode]
      omega
    have decoded := decode_encode (canonical instruction List.mem_cons_self) layout
    -- the next instruction stands behind the bytes of this one
    have rest := @ih (before ++ instruction.encode)
      (fun next member => canonical next (List.mem_cons_of_mem _ member)) (by simpa using layout)
    rw [List.length_append, Instruction.length_encode] at rest
    rw [disassembleFrom, if_pos inside, decoded, disassembleFrom_eq_append, rest]
    rfl

/-! ## Directives -/

/-- What an opcode carries: the magnitude of its operand, as far as it fits. -/
def Opcode.carried (opcode : Opcode) (operand : Operand) : Option Nat :=
  match opcode.width with
  | .none => none
  | .byte => some (operand.magnitude % 256)
  | .word => some (operand.magnitude % 65536)

theorem Instruction.operand?_ofOpcode {opcode : Opcode} (other : opcode ≠ .reset)
    (operand : Operand) :
    (ofOpcode opcode operand.byte operand.word).operand? = opcode.carried operand := by
  cases opcode with
  | reset => exact absurd rfl other
  | _ => simp [ofOpcode, operand?, Opcode.carried, Opcode.width, operand.toNat_byte,
      operand.toNat_word]

namespace Directive

/-- Whether no raw byte of a directive is the byte of an opcode, but for that of `nop`, and that
of `reset`, which is played as a note. -/
def Bare : Directive → Prop
  | emit _ _ => True
  | data operands => ∀ operand ∈ operands, operand.byte = 0 ∨ IsBareNote operand.byte

/-- What a directive that is written at an offset should be listed as: its opcode with the operand
coerced to the width of the opcode, or its raw bytes, each on a line of its own. -/
def lines (offset : Nat) : Directive → List Line
  | emit .reset _ => [⟨offset, .note 246⟩]
  | emit opcode operand => [⟨offset, .ofOpcode opcode operand.byte operand.word⟩]
  | data operands =>
    operands.zipIdx.map fun (operand, index) =>
      ⟨offset + index, if operand.byte = 0 then .nop else .note operand.byte⟩

/-- What directives that are written from an offset on should be listed as. -/
def listing (offset : Nat) : List Directive → List Line
  | [] => []
  | directive :: rest => directive.lines offset ++ listing (offset + directive.size) rest

theorem Bare.canonical {directive : Directive} (bare : directive.Bare) :
    ∀ instruction ∈ directive.instructions, instruction.Canonical := by
  cases directive with
  | emit opcode operand =>
    exact List.forall_mem_singleton.mpr (Instruction.canonical_ofOpcode _ _ _)
  -- a raw byte that is an opcode would take the bytes behind it for its operand
  | data operands =>
    exact List.forall_mem_map.mpr fun operand member =>
      Instruction.canonical_ofDataByte (bare operand member)

theorem lines_data (operands : List Operand) (offset index : Nat) :
    ((operands.zipIdx index).map fun (operand, index) =>
        (⟨offset + index, if operand.byte = 0 then .nop else .note operand.byte⟩ : Line)) =
      Line.sequence (offset + index) (data operands).instructions := by
  induction operands generalizing index with
  | nil => rfl
  | cons operand operands ih =>
    have single : (Instruction.ofDataByte operand.byte).size = 1 := by
      rw [← Instruction.length_encode, Instruction.encode_ofDataByte]
      rfl
    rw [List.zipIdx_cons, List.map_cons, ih (index + 1)]
    simp only [instructions, List.map_cons, Line.sequence, single, Nat.add_assoc]
    rfl

theorem lines_eq_sequence (directive : Directive) (offset : Nat) :
    directive.lines offset = Line.sequence offset directive.instructions := by
  cases directive with
  | emit opcode operand => cases opcode <;> rfl
  | data operands => exact lines_data operands offset 0

theorem listing_eq_sequence (directives : List Directive) (offset : Nat) :
    listing offset directives = Line.sequence offset (directives.flatMap instructions) := by
  induction directives generalizing offset with
  | nil => rfl
  | cons directive directives ih =>
    rw [listing, ih, lines_eq_sequence, List.flatMap_cons, Line.sequence_append,
      flatMap_encode_instructions, length_encode]

theorem flatMap_encode_flatMap_instructions (directives : List Directive) :
    (directives.flatMap instructions).flatMap Instruction.encode = directives.flatMap encode := by
  rw [List.flatMap_assoc]
  exact congrArg directives.flatMap (funext flatMap_encode_instructions)

end Directive

/-! ## Buffers of the assembler -/

/-- What has been written since the buffer was last cleared is listed in order, and the lines cover
the buffer. -/
theorem Assembler.disassemble_writeAll (before : Assembler) {directives : List Directive}
    (bare : ∀ directive ∈ directives, directive.Bare) :
    (before.clear.writeAll directives).bytes.disassemble = Directive.listing 0 directives ∧
    Line.Tiles 0 (before.clear.writeAll directives).size
      (before.clear.writeAll directives).bytes.disassemble := by
  have layout : (before.clear.writeAll directives).bytes.toList =
      [] ++ (directives.flatMap Directive.instructions).flatMap Instruction.encode := by
    rw [toList_bytes_writeAll, Directive.flatMap_encode_flatMap_instructions]
    rfl
  have canonical : ∀ instruction ∈ directives.flatMap Directive.instructions,
      instruction.Canonical := by
    intro instruction member
    obtain ⟨directive, listed, decoded⟩ := List.mem_flatMap.mp member
    exact (bare directive listed).canonical instruction decoded
  have listed : (before.clear.writeAll directives).bytes.disassemble =
      Line.sequence 0 (directives.flatMap Directive.instructions) :=
    Bytecode.disassembleFrom_length canonical layout
  refine ⟨listed.trans (Directive.listing_eq_sequence directives 0).symm, ?_⟩
  have size : (before.clear.writeAll directives).size =
      0 + ((directives.flatMap Directive.instructions).flatMap Instruction.encode).length := by
    rw [Assembler.size, ← Array.length_toList, layout, List.nil_append, Nat.zero_add]
  rw [listed, size]
  exact Line.tiles_sequence 0 _

namespace Invocation

/-- Whether no raw byte that a call gives is the byte of an opcode, but for that of `nop`, and that
of `reset`. -/
def Bare (call : Invocation) : Prop :=
  call.name = Assembler.dataMethod → (Directive.data call.operands).Bare

theorem bare_directive {call : Invocation} (proper : call.Proper) (bare : call.Bare) :
    call.directive.Bare := by
  cases proper with
  | data name =>
    rw [directive_data name]
    exact bare name
  | mnemonic opcode name _ =>
    rw [directive_mnemonic name]
    trivial

/-- A call that writes an opcode is listed on one line, as that opcode with the operand it
carries. -/
theorem exists_lines_eq {call : Invocation} {opcode : Opcode} (name : call.name = opcode.mnemonic)
    (other : opcode ≠ .reset) (offset : Nat) :
    ∃ instruction : Instruction, call.directive.lines offset = [⟨offset, instruction⟩] ∧
      instruction.opcode? = some opcode ∧
      instruction.operand? = opcode.carried (call.operands.headD (.integer 0)) := by
  refine ⟨_, ?_, Instruction.opcode?_ofOpcode other _ _, Instruction.operand?_ofOpcode other _⟩
  rw [directive_mnemonic name, Directive.lines_eq_sequence]
  rfl

end Invocation

/-- Calls can be made in any order, each with the operands its method takes.  Whatever has been
called since the buffer was last cleared is listed in that order: one line for each call, or for
each raw byte of it.  The lines cover the buffer, and each opcode comes back with the operand it
carries. -/
theorem Assembler.disassemble_invokeAll (before : Assembler) (calls : List Invocation) :
    ((before.clear.invokeAll? calls).isSome ↔ ∀ call ∈ calls, call.Proper) ∧
    ∀ last, before.clear.invokeAll? calls = some last → (∀ call ∈ calls, call.Bare) →
      last.bytes.disassemble = Directive.listing 0 (calls.map Invocation.directive) ∧
      Line.Tiles 0 last.size last.bytes.disassemble ∧
      ∀ call ∈ calls, ∀ opcode : Opcode, call.name = opcode.mnemonic → opcode ≠ .reset →
        ∀ offset, ∃ instruction : Instruction,
          call.directive.lines offset = [⟨offset, instruction⟩] ∧
          instruction.opcode? = some opcode ∧
          instruction.operand? = opcode.carried (call.operands.headD (.integer 0)) := by
  refine ⟨isSome_invokeAll?_iff, fun last called bare => ?_⟩
  have proper : ∀ call ∈ calls, call.Proper :=
    isSome_invokeAll?_iff.mp (Option.isSome_of_eq_some called)
  have written : ∀ directive ∈ calls.map Invocation.directive, directive.Bare :=
    List.forall_mem_map.mpr fun call member =>
      Invocation.bare_directive (proper call member) (bare call member)
  obtain rfl := Option.some.inj (called.symm.trans (before.clear.invokeAll?_eq_writeAll proper))
  obtain ⟨listed, tiles⟩ := disassemble_writeAll before written
  exact ⟨listed, tiles, fun _ _ _ name other offset => Invocation.exists_lines_eq name other offset⟩

/-- Operands that are negative or too large, an opcode that is played as a note, and raw bytes. -/
def Assembler.mixedCalls : List Invocation :=
  [⟨"play", [.integer (-300)]⟩, ⟨"jump", [.integer 65793]⟩, ⟨"reset", []⟩,
    ⟨"db", [.integer 0, .integer 60, .integer (-246)]⟩, ⟨"db", []⟩, ⟨"halt", []⟩]

theorem Assembler.disassemble_mixedCalls :
    (∀ call ∈ mixedCalls, call.Proper) ∧ (∀ call ∈ mixedCalls, call.Bare) ∧
    (⟨#[0xFE, 7]⟩ : Assembler).clear.invokeAll? mixedCalls =
      some ((((((({} : Assembler).play (.integer (-300))).jump (.integer 65793)).reset).data
        [.integer 0, .integer 60, .integer (-246)]).data []).halt) ∧
    ((((((({} : Assembler).play (.integer (-300))).jump (.integer 65793)).reset).data
        [.integer 0, .integer 60, .integer (-246)]).data []).halt).bytes.disassemble =
      [⟨0, .play 44⟩, ⟨2, .jump .always 257⟩, ⟨5, .note 246⟩, ⟨6, .nop⟩, ⟨7, .note 60⟩,
        ⟨8, .note 246⟩, ⟨9, .halt⟩] ∧
    Line.Tiles 0 10 [⟨0, .play 44⟩, ⟨2, .jump .always 257⟩, ⟨5, .note 246⟩, ⟨6, .nop⟩,
      ⟨7, .note 60⟩, ⟨8, .note 246⟩, ⟨9, .halt⟩] := by
  have bare : ∀ call ∈ mixedCalls, call.Bare := by
    simp only [mixedCalls, List.forall_mem_cons, List.not_mem_nil, false_implies, implies_true,
      and_true, Invocation.Bare, Directive.Bare]
    decide
  obtain ⟨made, result⟩ := disassemble_invokeAll ⟨#[0xFE, 7]⟩ mixedCalls
  obtain ⟨listed, tiles, -⟩ := result _ rfl bare
  rw [listed] at tiles
  exact ⟨made.mp rfl, bare, rfl, listed, tiles⟩

end Sequencer
