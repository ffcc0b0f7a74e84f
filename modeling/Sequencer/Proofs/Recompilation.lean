import Sequencer.Bytecode.Disassembly
import Sequencer.Proofs.Script.Writing

/-!
# Listings can be compiled again

The statements of a disassembly are a script, and compiling it gives the buffer back.
Only what the end of the buffer cut off comes out as zeros, in front of the final
`halt`.

* `Instruction.call` — the call that the statement of a line spells.
* `encode_decode` — a decoded instruction encodes to the bytes it was decoded from.
* `flatMap_encode_disassembleFrom` — the lines from an offset on cover the rest of a
  buffer, and only the last one can reach past its end.
* `overhang` — by how much it does.
-/

namespace Sequencer

open Script

/-! ## Statements of lines -/

namespace Instruction

/-- The call that stands for the instruction. -/
def call (instruction : Instruction) : Call :=
  ⟨(instruction.opcode?.map Opcode.mnemonic).getD dataMnemonic,
    instruction.operand?.toList.map fun value => ⟨.number value, default⟩, default⟩

/-- What the call of the instruction is compiled to. -/
def directive (instruction : Instruction) : Directive :=
  match instruction.opcode? with
  | some opcode => .emit opcode (.integer (instruction.operand?.getD 0 : Nat))
  | none => .data [.integer (instruction.operand?.getD 0 : Nat)]

theorem encode_directive (instruction : Instruction) :
    instruction.directive.encode = instruction.encode := by
  cases known : instruction.opcode? with
  | some opcode => simp [directive, encode, known, Directive.encode]
  | none => simp [directive, encode, known, Directive.encode, Operand.byte, Operand.magnitude]

theorem operand?_eq_none_iff {instruction : Instruction} {opcode : Opcode}
    (known : instruction.opcode? = some opcode) :
    instruction.operand? = none ↔ opcode.width = .none := by
  cases instruction <;> cases known <;> simp [operand?, Opcode.width]

theorem makes_call (labels : Labels) (instruction : Instruction) :
    Makes labels instruction.call instruction.directive := by
  cases known : instruction.opcode? with
  | some opcode =>
    have name : instruction.call.name = opcode.mnemonic := by simp [call, known]
    have same : instruction.directive =
        .emit opcode (.integer (instruction.operand?.getD 0 : Nat)) := by
      simp [directive, known]
    rw [same]
    cases operand : instruction.operand? with
    | none =>
      exact .plain name ((operand?_eq_none_iff known).mp operand) (by simp [call, operand])
    | some value =>
      refine .operand name ?_ (by simp [call, operand]; rfl) rfl
      intro narrow
      rw [(operand?_eq_none_iff known).mpr narrow] at operand
      cases operand
  | none =>
    cases instruction with
    | note pitch => exact .data rfl (.cons rfl .nil)
    | _ => cases known

end Instruction

theorem Line.statement_eq_text (line : Line) :
    line.statement = (Statement.call line.instruction.call).text := by
  cases operand : line.instruction.operand? with
  | none => simp [statement, Statement.text, Instruction.call, operand]
  | some value =>
    have unsigned : ¬(value : Int) < 0 := by omega
    simp [statement, Statement.text, Instruction.call, operand, Value.text, unsigned]

theorem Line.size_eq {line : Line} {opcode : Opcode}
    (known : line.instruction.opcode? = some opcode) : line.size = 1 + opcode.width.size := by
  simp [size, Instruction.size, known, Opcode.size]

theorem operand?_lt {instruction : Instruction} {value : Nat}
    (operand : instruction.operand? = some value) : value < 65536 := by
  cases instruction <;> simp only [Instruction.operand?, Option.some.injEq, reduceCtorEq] at operand <;>
    subst operand <;>
    first
    | exact UInt16.toNat_lt _
    | exact Nat.lt_trans (UInt8.toNat_lt _) (by decide)

theorem writable_call (instruction : Instruction) :
    (Statement.call instruction.call).Writable := by
  constructor
  · apply nameText_of_isName
    cases known : instruction.opcode? with
    | none => simpa [Instruction.call, known] using isName_dataMnemonic
    | some opcode => simpa [Instruction.call, known] using isName_mnemonic opcode
  · intro argument member
    cases operand : instruction.operand? with
    | none => simp [Instruction.call, operand] at member
    | some value =>
      obtain rfl : argument = ⟨.number value, default⟩ := by
        simpa [Instruction.call, operand] using member
      have small := operand?_lt operand
      simp only [Value.Writable, greatestMagnitude, Int.natAbs_natCast]
      omega

/-- The statements of instructions are compiled to their bytes. -/
theorem accepted_calls {instructions : List Instruction} {code : Bytecode}
    (bytes : code.toList = instructions.flatMap Instruction.encode ++ [Opcode.halt.byte]) :
    Accepted (instructions.map fun instruction => .call instruction.call) code := by
  have emits : ∀ labels, emitted labels (instructions.map fun instruction =>
      .call instruction.call) = instructions.flatMap Instruction.encode := by
    intro labels
    clear bytes
    induction instructions with
    | nil => rfl
    | cons instruction instructions ih =>
      have known := Call.directive_eq_ok_iff.mpr (instruction.makes_call labels)
      rw [List.map_cons, emitted_call labels _ known, ih, instruction.encode_directive,
        List.flatMap_cons]
  refine ⟨?_, ?_, by rw [bytes, emits]⟩
  · have none : definedNames (instructions.map fun instruction => .call instruction.call) = [] := by
      simp [definedNames]
    rw [none]
    exact List.nodup_nil
  · intro call member
    obtain ⟨instruction, -, rfl⟩ : ∃ instruction ∈ instructions, instruction.call = call := by
      simpa [calls, Statement.call?] using member
    exact ⟨_, Call.directive_eq_ok_iff.mpr (instruction.makes_call _)⟩

/-! ## Bytes of lines -/

theorem bytesOfWord_wordOfBytes (low high : UInt8) :
    bytesOfWord (wordOfBytes low high) = [low, high] := by
  have lowBound := low.toNat_lt
  have highBound := high.toNat_lt
  have value : (wordOfBytes low high).toNat = low.toNat + 256 * high.toNat := by
    simp only [wordOfBytes, UInt16.toNat_ofNat']
    omega
  have first : (low.toNat + 256 * high.toNat) % 256 = low.toNat := by omega
  have second : (low.toNat + 256 * high.toNat) / 256 = high.toNat := by omega
  simp [bytesOfWord, value, first, second]

namespace Bytecode

/-- A decoded instruction encodes to the bytes it was decoded from. -/
theorem encode_decode (code : Bytecode) (offset : Nat) :
    (code.decode offset).encode =
      (List.range (code.decode offset).size).map fun i => code.byteAt (offset + i) := by
  cases found : Opcode.ofByte? (code.byteAt offset) with
  | none =>
    have decoded : code.decode offset = .note (code.byteAt offset) := by simp [decode, found]
    simp [decoded, Instruction.encode, Instruction.size, Instruction.opcode?, Instruction.operand?]
  | some opcode =>
    have first := Opcode.byte_of_ofByte?_eq_some found
    have decoded : code.decode offset =
        .ofOpcode opcode (code.byteAt (offset + 1)) (code.wordAt (offset + 1)) := by
      simp [decode, found]
    rw [decoded, Instruction.size_ofOpcode, Opcode.size]
    -- the operand of the other width is not read, so it may be taken to agree
    cases width : opcode.width with
    | none =>
      rw [Instruction.ofOpcode_congr (by simp [width]) (by simp [width]),
        Instruction.encode_ofOpcode opcode (.integer 0)]
      simp [Opcode.encode, width, Width.size, first]
    | byte =>
      rw [Instruction.ofOpcode_congr (fun _ => (Operand.byte_integer_toNat _).symm)
        (by simp [width]), Instruction.encode_ofOpcode]
      simp [Opcode.encode, width, Width.size, first, List.range_succ]
    | word =>
      rw [Instruction.ofOpcode_congr (by simp [width])
        (fun _ => (Operand.word_integer_toNat _).symm), Instruction.encode_ofOpcode]
      simp [Opcode.encode, width, Width.size, first, List.range_succ, wordAt,
        bytesOfWord_wordOfBytes]

/-- Bytes of a buffer that may be read past its end. -/
theorem map_byteAt_range {code : Bytecode} {offset : Nat} (inside : offset ≤ code.size)
    (count : Nat) :
    (List.range count).map (fun i => code.byteAt (offset + i)) =
      (code.toList.drop offset).take count ++ List.replicate (offset + count - code.size) 0 := by
  apply List.ext_getElem
  · simp
    omega
  · intro i inLeft inRight
    by_cases within : offset + i < code.size
    · have kept : i < ((code.toList.drop offset).take count).length := by
        simp at inLeft ⊢
        omega
      rw [List.getElem_append_left kept]
      simp [byteAt, within]
    · have past : ((code.toList.drop offset).take count).length ≤ i := by
        simp
        omega
      rw [List.getElem_append_right past]
      simp [byteAt_of_size_le (by omega : code.size ≤ offset + i)]

/-- The lines from an offset on cover the rest of the buffer. -/
theorem flatMap_encode_disassembleFrom {code : Bytecode} {offset : Nat}
    (inside : offset < code.size) :
    ∃ last, (code.disassembleFrom offset []).getLast? = some last ∧ last.offset < code.size ∧
      last.instruction = code.decode last.offset ∧ code.size ≤ last.offset + last.size ∧
      (code.disassembleFrom offset []).flatMap (·.instruction.encode) =
        code.toList.drop offset ++ List.replicate (last.offset + last.size - code.size) 0 := by
  -- on what is left of the buffer, which gets shorter by the size of each line
  induction left : code.size - offset using Nat.strongRecOn generalizing offset with
  | ind left ih =>
    have bytes := encode_decode code offset
    rw [map_byteAt_range (by omega)] at bytes
    rw [disassembleFrom, if_pos inside, disassembleFrom_eq_append]
    have progress := Instruction.size_pos (code.decode offset)
    by_cases more : offset + (code.decode offset).size < code.size
    · obtain ⟨last, isLast, starts, decoded, reaches, covers⟩ := ih _ (by omega) more rfl
      refine ⟨last, ?_, starts, decoded, reaches, ?_⟩
      · simp [List.getLast?_cons, isLast]
      · have none : offset + (code.decode offset).size - code.size = 0 := by omega
        rw [none, List.replicate_zero, List.append_nil] at bytes
        simp only [List.reverse_singleton, List.singleton_append, List.flatMap_cons]
        rw [bytes, covers, ← List.drop_drop, ← List.append_assoc, List.take_append_drop]
    · refine ⟨⟨offset, code.decode offset⟩, ?_, inside, rfl, ?_, ?_⟩
      · rw [disassembleFrom, if_neg more]
        simp
      · show code.size ≤ offset + (code.decode offset).size
        omega
      · have whole : (code.toList.drop offset).take (code.decode offset).size =
            code.toList.drop offset := by
          rw [List.take_of_length_le]
          simp
          omega
        rw [whole] at bytes
        rw [disassembleFrom, if_neg more]
        simpa [Line.size] using bytes

/-- By how much the last line reaches past the end of the buffer. -/
def overhang (code : Bytecode) : Nat :=
  match code.disassemble.getLast? with
  | some last => last.offset + last.size - code.size
  | none => 0

/-- Whether the buffer ends inside the operand of its last line. -/
def EndsInOperand (code : Bytecode) : Prop :=
  ∃ last opcode, code.disassemble.getLast? = some last ∧ last.instruction.opcode? = some opcode ∧
    last.offset < code.size ∧ code.size < last.offset + 1 + opcode.width.size

theorem disassemble_of_empty {code : Bytecode} (empty : code.size = 0) :
    code.disassemble = [] := by
  simp [disassemble, disassembleFrom, empty]

theorem overhang_eq {code : Bytecode} {last : Line}
    (isLast : code.disassemble.getLast? = some last) :
    code.overhang = last.offset + last.size - code.size := by
  simp only [overhang, isLast]

theorem flatMap_encode_disassemble (code : Bytecode) :
    code.disassemble.flatMap (·.instruction.encode) =
      code.toList ++ List.replicate code.overhang 0 := by
  by_cases empty : code.size = 0
  · have nothing := disassemble_of_empty empty
    have bytes : code.toList = [] := List.eq_nil_of_length_eq_zero empty
    simp [overhang, nothing, bytes]
  · obtain ⟨last, isLast, -, -, -, covers⟩ := flatMap_encode_disassembleFrom
      (Nat.pos_of_ne_zero empty)
    rw [overhang_eq isLast]
    exact covers

theorem endsInOperand_of_overhang_pos {code : Bytecode} (positive : 0 < code.overhang) :
    code.EndsInOperand := by
  by_cases empty : code.size = 0
  · simp [overhang, disassemble_of_empty empty] at positive
  · obtain ⟨last, isLast, starts, -, -, -⟩ := flatMap_encode_disassembleFrom
      (Nat.pos_of_ne_zero empty)
    have width := overhang_eq isLast
    cases known : last.instruction.opcode? with
    | none =>
      -- a bare note is a single byte, and that byte is in the buffer
      have single : last.size = 1 := by simp [Line.size, Instruction.size, known]
      omega
    | some opcode =>
      have size := Line.size_eq known
      exact ⟨last, opcode, isLast, known, starts, by omega⟩

theorem overhang_le_two (code : Bytecode) : code.overhang ≤ 2 := by
  by_cases positive : 0 < code.overhang
  · obtain ⟨last, opcode, isLast, known, starts, -⟩ := endsInOperand_of_overhang_pos positive
    have size := Line.size_eq known
    have width := overhang_eq isLast
    have widest : opcode.width.size ≤ 2 := by cases opcode.width <;> simp [Width.size]
    omega
  · omega

/-- What a disassembly lists is compiled to the buffer, the zeros that complete its last
operand and the final `halt`. -/
theorem recompile_disassembly (code : Bytecode) :
    ∃ script, parse ("\n".intercalate (code.disassemble.map Line.statement)) = .ok script ∧
      compile script = .ok (code ++ Array.replicate code.overhang 0 ++ #[0xFF]) ∧
      code.overhang ≤ 2 ∧ (0 < code.overhang → code.EndsInOperand) := by
  have lines : "\n".intercalate (code.disassemble.map Line.statement) =
      linesOf ((code.disassemble.map Line.instruction).map fun instruction =>
        .call instruction.call) := by
    rw [linesOf, List.map_map, List.map_map]
    exact congrArg _ (List.map_congr_left fun line _ => line.statement_eq_text)
  have writable : ∀ statement ∈ (code.disassemble.map Line.instruction).map fun instruction =>
      Statement.call instruction.call, statement.Writable := by
    intro statement member
    obtain ⟨instruction, -, rfl⟩ := List.mem_map.mp member
    exact writable_call instruction
  have bytes : (code ++ Array.replicate code.overhang 0 ++ #[0xFF]).toList =
      (code.disassemble.map Line.instruction).flatMap Instruction.encode ++
        [Opcode.halt.byte] := by
    rw [List.flatMap_map, flatMap_encode_disassemble]
    simp [Opcode.byte]
  obtain ⟨script, parsed, compiled⟩ := compile_linesOf writable (accepted_calls bytes)
  rw [lines]
  exact ⟨script, parsed, compiled, overhang_le_two code, endsInOperand_of_overhang_pos⟩

end Bytecode

end Sequencer
