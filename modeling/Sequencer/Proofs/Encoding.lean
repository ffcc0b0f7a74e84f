import Sequencer.Assembler

/-!
# Encoding and decoding

The assembler writes what the decoder reads: an instruction that stands somewhere
in a buffer is decoded as itself there, whatever surrounds it.

* `IsBareNote` — the bytes that no opcode claims, and the byte of `reset`.
* `Instruction.encode`, `Bytecode.decode_encode` — the bytes of an instruction
  and the round trip through a buffer.
* `Directive.instructions` — what a directive turns into when it is decoded.  A
  directive of raw bytes stands for one instruction per byte.
-/

namespace Sequencer

/-- The bytes played as they are. -/
def IsBareNote (b : UInt8) : Prop :=
  (0x01 ≤ b ∧ b ≤ 0xE5) ∨ b = 0xF6

instance : DecidablePred IsBareNote :=
  fun b => inferInstanceAs (Decidable ((0x01 ≤ b ∧ b ≤ 0xE5) ∨ b = 0xF6))

theorem isBareNote_iff {b : UInt8} :
    IsBareNote b ↔ Opcode.ofByte? b = none ∨ b = Opcode.reset.byte := by
  have table : ∀ n : Fin 256, IsBareNote (UInt8.ofNat n) ↔
      Opcode.ofByte? (UInt8.ofNat n) = none ∨ UInt8.ofNat n = Opcode.reset.byte := by
    decide +kernel
  simpa using table ⟨b.toNat, b.toNat_lt⟩

namespace Operand

@[simp] theorem byte_integer_toNat (b : UInt8) : (integer (b.toNat : Nat)).byte = b := by
  simp [byte, magnitude]

@[simp] theorem word_integer_toNat (w : UInt16) : (integer (w.toNat : Nat)).word = w := by
  simp [word, magnitude]

end Operand

/-! ## Bytes of a buffer -/

namespace Bytecode

theorem byteAt_eq_getElem? (code : Bytecode) (offset : Nat) :
    code.byteAt offset = code.toList[offset]?.getD 0 := by
  simp [byteAt]

/-- The byte behind a stretch of the buffer. -/
theorem byteAt_length {code : Bytecode} {before after : List UInt8} {b : UInt8}
    (layout : code.toList = before ++ b :: after) : code.byteAt before.length = b := by
  simp [byteAt_eq_getElem?, layout]

/-- The second byte behind a stretch of the buffer. -/
theorem byteAt_length_add_one {code : Bytecode} {before after : List UInt8} {b c : UInt8}
    (layout : code.toList = before ++ b :: c :: after) :
    code.byteAt (before.length + 1) = c := by
  have shifted : code.toList = (before ++ [b]) ++ c :: after := by simp [layout]
  simpa using byteAt_length shifted

theorem decode_of_zero {code : Bytecode} {offset : Nat} (zero : code.byteAt offset = 0) :
    code.decode offset = .nop := by
  rw [decode, zero]
  rfl

/-- Behind its end a buffer is read as zeros. -/
theorem decode_of_size_le {code : Bytecode} {offset : Nat} (past : code.size ≤ offset) :
    code.decode offset = .nop :=
  decode_of_zero (byteAt_of_size_le past)

theorem wordAt_length {code : Bytecode} {before after : List UInt8} {word : UInt16}
    (layout : code.toList = before ++ (bytesOfWord word ++ after)) :
    code.wordAt before.length = word := by
  have low := byteAt_length (b := UInt8.ofNat (word.toNat % 256)) layout
  have high := byteAt_length_add_one (c := UInt8.ofNat (word.toNat / 256)) layout
  rw [wordAt, low, high, wordOfBytes_bytesOfWord]

end Bytecode

/-! ## Opcodes with their operand -/

theorem Opcode.arity_eq_zero_iff {opcode : Opcode} : opcode.arity = 0 ↔ opcode.width = .none := by
  unfold Opcode.arity
  split <;> simp_all

theorem Opcode.arity_le_one (opcode : Opcode) : opcode.arity ≤ 1 := by
  unfold Opcode.arity
  split <;> omega

/-- What is given to an opcode in the right number is nothing or a single thing. -/
theorem Opcode.given_cases {α : Type} {opcode : Opcode} {given : List α}
    (arity : given.length = opcode.arity) :
    opcode.width = .none ∧ given = [] ∨ opcode.width ≠ .none ∧ ∃ only, given = [only] := by
  by_cases narrow : opcode.width = .none
  · rw [arity_eq_zero_iff.mpr narrow] at arity
    exact .inl ⟨narrow, List.length_eq_zero_iff.mp arity⟩
  · have some := mt arity_eq_zero_iff.mp narrow
    have most := opcode.arity_le_one
    exact .inr ⟨narrow, List.length_eq_one_iff.mp (by omega)⟩

/-- Only the operand of its own width matters to an opcode. -/
theorem Instruction.ofOpcode_congr {opcode : Opcode} {narrow narrow' : UInt8}
    {wide wide' : UInt16} (sameByte : opcode.width = .byte → narrow = narrow')
    (sameWord : opcode.width = .word → wide = wide') :
    ofOpcode opcode narrow wide = ofOpcode opcode narrow' wide' := by
  cases opcode <;> simp_all [ofOpcode, Opcode.width]

theorem Bytecode.decode_opcode_encode {code : Bytecode} {before after : List UInt8}
    {opcode : Opcode} {operand : Operand}
    (layout : code.toList = before ++ (opcode.encode operand ++ after)) :
    code.decode before.length = .ofOpcode opcode operand.byte operand.word := by
  -- whatever the width, the opcode byte comes first
  obtain ⟨operands, encoded⟩ : ∃ operands, opcode.encode operand = opcode.byte :: operands := by
    unfold Opcode.encode
    split <;> exact ⟨_, rfl⟩
  have first : code.byteAt before.length = opcode.byte := by
    rw [encoded] at layout
    exact byteAt_length layout
  rw [decode, first, Opcode.ofByte?_byte]
  apply Instruction.ofOpcode_congr
  · intro width
    simp only [Opcode.encode, width] at layout
    exact byteAt_length_add_one layout
  · intro width
    simp only [Opcode.encode, width] at layout
    have shifted : code.toList = (before ++ [opcode.byte]) ++ (bytesOfWord operand.word ++ after) := by
      simpa using layout
    simpa using wordAt_length shifted

/-! ## Instructions -/

namespace Instruction

/-- Whether the instruction is what its own bytes stand for.  A note is so only on a byte that
no opcode claims. -/
def Canonical : Instruction → Prop
  | note pitch => IsBareNote pitch
  | _ => True

/-- The bytes of an instruction. -/
def encode (instruction : Instruction) : List UInt8 :=
  match instruction.opcode? with
  | some opcode => opcode.encode (.integer (instruction.operand?.getD 0 : Nat))
  | none => [UInt8.ofNat (instruction.operand?.getD 0)]

@[simp] theorem length_encode (instruction : Instruction) :
    instruction.encode.length = instruction.size := by
  cases known : instruction.opcode? with
  | none => simp [encode, size, known]
  | some opcode =>
    simp only [encode, size, known]
    exact Directive.length_encode (.emit _ _)

theorem ofOpcode_operand {instruction : Instruction} {opcode : Opcode}
    (known : instruction.opcode? = some opcode) :
    ofOpcode opcode (Operand.integer (instruction.operand?.getD 0 : Nat)).byte
      (Operand.integer (instruction.operand?.getD 0 : Nat)).word = instruction := by
  cases instruction <;> simp only [opcode?, Option.some.injEq, reduceCtorEq] at known <;>
    subst known <;> simp [ofOpcode, operand?]

theorem encode_ofOpcode (opcode : Opcode) (operand : Operand) :
    (ofOpcode opcode operand.byte operand.word).encode = opcode.encode operand := by
  cases opcode <;> simp [ofOpcode, encode, opcode?, operand?, Opcode.encode, Opcode.width]

theorem canonical_ofOpcode (opcode : Opcode) (narrow : UInt8) (wide : UInt16) :
    (ofOpcode opcode narrow wide).Canonical := by
  cases opcode with
  | reset => exact Or.inr rfl
  | _ => trivial

end Instruction

namespace Bytecode

/-- An instruction is decoded as itself wherever it stands. -/
theorem decode_encode {code : Bytecode} {before after : List UInt8} {instruction : Instruction}
    (canonical : instruction.Canonical)
    (layout : code.toList = before ++ (instruction.encode ++ after)) :
    code.decode before.length = instruction := by
  unfold Instruction.encode at layout
  split at layout
  next opcode known =>
    rw [decode_opcode_encode layout, Instruction.ofOpcode_operand known]
  next unknown =>
    cases instruction with
    | note pitch =>
      simp only [Instruction.operand?, Option.getD_some, UInt8.ofNat_toNat] at layout
      have first := byteAt_length layout
      -- `reset` has an opcode, and is played as a note all the same
      obtain bare | rfl := isBareNote_iff.mp canonical
      · rw [decode, first, bare]
      · rw [decode, first]
        rfl
    | _ => cases unknown

end Bytecode

/-! ## Directives -/

/-- What a raw byte is decoded as, if no opcode but `nop` claims it. -/
def Instruction.ofDataByte (b : UInt8) : Instruction :=
  if b = 0 then .nop else .note b

theorem Instruction.ofDataByte_cases (b : UInt8) :
    ofDataByte b = .nop ∨ ofDataByte b = .note b := by
  unfold ofDataByte
  split
  next => exact .inl rfl
  next => exact .inr rfl

/-- What a directive is decoded as. -/
def Directive.instructions : Directive → List Instruction
  | emit opcode operand => [.ofOpcode opcode operand.byte operand.word]
  | data operands => operands.map (.ofDataByte ·.byte)

@[simp] theorem Instruction.encode_ofDataByte (b : UInt8) : (ofDataByte b).encode = [b] := by
  unfold ofDataByte
  split
  next zero => rw [zero]; rfl
  next => simp [encode, opcode?, operand?]

theorem Instruction.canonical_ofDataByte {b : UInt8} (bare : b = 0 ∨ IsBareNote b) :
    (ofDataByte b).Canonical := by
  unfold ofDataByte
  split
  next => trivial
  next nonzero => exact bare.resolve_left nonzero

theorem Directive.flatMap_encode_instructions (directive : Directive) :
    directive.instructions.flatMap Instruction.encode = directive.encode := by
  cases directive with
  | emit opcode operand => simp [instructions, encode, Instruction.encode_ofOpcode]
  | data operands =>
    induction operands with
    | nil => rfl
    | cons operand operands ih =>
      simp only [instructions, encode, List.map_cons, List.flatMap_cons] at ih ⊢
      rw [ih, Instruction.encode_ofDataByte]
      rfl

end Sequencer
