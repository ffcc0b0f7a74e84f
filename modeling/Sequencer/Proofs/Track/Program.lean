import Sequencer.Proofs.Encoding
import Sequencer.Proofs.Track.Steps

/-!
# Programs that keep to their instructions

A routine is a list of instructions laid out one behind the other, with a `halt` as
the last one, whose jumps lead to instructions.  While a track runs it, the cursor
stays on instructions until the last one has been executed, but for conditional jumps:
one that is not taken comes upon the high byte of its target.

* `Routine` — such a list, and `Routine.Inside`, the offsets a cursor comes upon.
* `Program` — a routine that is short enough for a zero as the high byte of a target.
* `Routine.Placed` — a fetch function reads it from where it lies, with those zeros.
* `Routine.Holds` — the invariant: where the cursor is, and where repeats lead.
* `Routine.execute_holds` — one instruction keeps the invariant, or it was the last
  `halt`.
-/

namespace Sequencer

/-! ## Routines -/

/-- The bytes of instructions that lie one behind the other. -/
def bytesOf (instructions : List Instruction) : List UInt8 :=
  instructions.flatMap Instruction.encode

@[simp] theorem bytesOf_append (first second : List Instruction) :
    bytesOf (first ++ second) = bytesOf first ++ bytesOf second :=
  List.flatMap_append

@[simp] theorem bytesOf_cons (instruction : Instruction) (rest : List Instruction) :
    bytesOf (instruction :: rest) = instruction.encode ++ bytesOf rest :=
  List.flatMap_cons

/-- Whether the instruction never leads back to the anchor. -/
def Instruction.Forward : Instruction → Prop
  | repeatSection _ => False
  | _ => True

/-- Whether the instruction is one of those, and starts at the offset. -/
def Starts (instructions : List Instruction) (offset : Nat) (instruction : Instruction) : Prop :=
  ∃ before after, instructions = before ++ instruction :: after ∧ offset = (bytesOf before).length

theorem Starts.mem {instructions : List Instruction} {offset : Nat} {instruction : Instruction}
    (starts : Starts instructions offset instruction) : instruction ∈ instructions := by
  obtain ⟨before, after, rfl, -⟩ := starts
  exact List.mem_append_right _ List.mem_cons_self

section Layout

variable {instructions : List Instruction} {instruction : Instruction} {offset : Nat}
  {code : Bytecode} {before after : List UInt8}

/-- Instructions are decoded where they start. -/
theorem decode_of_starts (layout : code.toList = before ++ (bytesOf instructions ++ after))
    (canonical : instruction.Canonical) (starts : Starts instructions offset instruction) :
    code.decode (before.length + offset) = instruction := by
  obtain ⟨front, back, split, rfl⟩ := starts
  have within : code.toList =
      (before ++ bytesOf front) ++ (instruction.encode ++ (bytesOf back ++ after)) := by
    simp [layout, split]
  rw [← List.length_append]
  exact Bytecode.decode_encode canonical within

/-- The last byte of a jump is the high byte of its target. -/
theorem byteAt_of_starts_jump {condition : Condition} {target : UInt16}
    (layout : code.toList = before ++ (bytesOf instructions ++ after))
    (starts : Starts instructions offset (.jump condition target)) :
    code.byteAt (before.length + (offset + 2)) = UInt8.ofNat (target.toNat / 256) := by
  obtain ⟨front, back, split, rfl⟩ := starts
  have encoded : (Instruction.jump condition target).encode =
      [(Opcode.jump condition).byte, UInt8.ofNat (target.toNat % 256),
        UInt8.ofNat (target.toNat / 256)] := by
    simp [Instruction.encode, Instruction.opcode?, Instruction.operand?, Opcode.encode,
      Opcode.width, bytesOfWord]
  have within : code.toList = (before ++ (bytesOf front ++
      [(Opcode.jump condition).byte, UInt8.ofNat (target.toNat % 256)])) ++
      UInt8.ofNat (target.toNat / 256) :: (bytesOf back ++ after) := by
    simp [layout, split, encoded]
  have read := Bytecode.byteAt_length within
  simpa using read

end Layout

/-- Instructions with a `halt` behind them, whose jumps lead to instructions.  A cursor reaches
all of them, and the byte behind them. -/
structure Routine where
  body : List Instruction
  canonical : ∀ instruction ∈ body, instruction.Canonical
  targets : ∀ condition target, .jump condition target ∈ body →
    ∃ instruction, Starts (body ++ [.halt]) target.toNat instruction
  fits : (bytesOf (body ++ [.halt])).length < 65536

namespace Routine

/-- All instructions, the last `halt` included. -/
def instructions (routine : Routine) : List Instruction :=
  routine.body ++ [.halt]

def size (routine : Routine) : Nat :=
  (bytesOf routine.instructions).length

theorem size_lt (routine : Routine) : routine.size < 65536 :=
  routine.fits

variable {routine : Routine} {offset : Nat} {instruction : Instruction}

theorem size_eq {code : Bytecode} (bytes : bytesOf routine.instructions = code.toList) :
    routine.size = code.size := by
  rw [size, bytes, Array.length_toList]

theorem end_le_size (starts : Starts routine.instructions offset instruction) :
    offset + instruction.size ≤ routine.size := by
  obtain ⟨before, after, split, rfl⟩ := starts
  rw [size, split]
  simp

theorem mem_of_starts (starts : Starts routine.instructions offset instruction) :
    instruction ∈ routine.body ∨ instruction = .halt := by
  have member : instruction ∈ routine.body ++ [.halt] := starts.mem
  simpa using member

theorem canonical_of_starts (starts : Starts routine.instructions offset instruction) :
    instruction.Canonical := by
  obtain inBody | rfl := mem_of_starts starts
  · exact routine.canonical instruction inBody
  · trivial

theorem targets_of_starts {condition : Condition} {target : UInt16}
    (starts : Starts routine.instructions offset (.jump condition target)) :
    ∃ instruction, Starts routine.instructions target.toNat instruction := by
  obtain inBody | impossible := mem_of_starts starts
  · exact routine.targets condition target inBody
  · cases impossible

/-- Behind an instruction comes another one, unless it is the last `halt`. -/
theorem starts_next (starts : Starts routine.instructions offset instruction) :
    (∃ next, Starts routine.instructions (offset + instruction.size) next) ∨
      instruction = .halt ∧ offset + 1 = routine.size := by
  obtain ⟨before, after, split, rfl⟩ := starts
  cases after with
  | cons next after =>
    refine .inl ⟨next, before ++ [instruction], after, by simp [split], ?_⟩
    simp [bytesOf]
  | nil =>
    obtain ⟨-, last⟩ := List.append_inj' (split : routine.body ++ [.halt] = _) rfl
    obtain rfl : Instruction.halt = instruction := List.singleton_inj.mp last
    refine .inr ⟨rfl, ?_⟩
    rw [size, split]
    simp [bytesOf, Instruction.size, Instruction.opcode?, Opcode.size, Opcode.width, Width.size]

theorem starts_zero (routine : Routine) :
    ∃ instruction, Starts routine.instructions 0 instruction := by
  cases body : routine.body with
  | nil => exact ⟨.halt, [], [], by simp [instructions, body], rfl⟩
  | cons instruction rest =>
    exact ⟨instruction, [], rest ++ [.halt], by simp [instructions, body], rfl⟩

/-! ## Where the cursor can be -/

/-- Whether the offset is an instruction or the high byte of a target that may be left out. -/
inductive Inside (routine : Routine) : Nat → Prop where
  | start {offset : Nat} {instruction : Instruction}
      (starts : Starts routine.instructions offset instruction) : Inside routine offset
  | high {offset : Nat} {condition : Condition} {target : UInt16}
      (conditional : condition ≠ .always)
      (starts : Starts routine.instructions offset (.jump condition target)) :
      Inside routine (offset + 2)

/-- Whether a fetch function reads the routine, and zeros as the high bytes of its targets. -/
structure Placed (routine : Routine) (fetch : UInt16 → Instruction) : Prop where
  start : ∀ cursor instruction, Starts routine.instructions cursor.toNat instruction →
    fetch cursor = instruction
  high : ∀ cursor offset condition target, cursor.toNat = offset + 2 →
    Starts routine.instructions offset (.jump condition target) → fetch cursor = .nop

/-- The cursor is in the routine, and repeats lead to an instruction. -/
structure Holds (routine : Routine) (state : TrackState) : Prop where
  cursor : Inside routine state.cursor.toNat
  anchor : ∃ instruction, Starts routine.instructions state.sectionAnchor.toNat instruction

theorem Inside.lt_size (inside : Inside routine offset) : offset < routine.size := by
  cases inside with
  | @start _ instruction starts =>
    have fits := end_le_size starts
    have nonempty := instruction.size_pos
    omega
  | @high offset condition target conditional starts =>
    have fits : offset + 3 ≤ routine.size := end_le_size starts
    omega

theorem holds_default (routine : Routine) : routine.Holds {} := by
  obtain ⟨instruction, starts⟩ := routine.starts_zero
  exact ⟨.start starts, instruction, starts⟩

/-- Cursors within a routine do not wrap around. -/
theorem toNat_add_of_le {cursor : UInt16} {count : Nat} (fits : cursor.toNat + count ≤ routine.size) :
    (cursor + UInt16.ofNat count).toNat = cursor.toNat + count := by
  have short := routine.size_lt
  rw [UInt16.toNat_add, UInt16.toNat_ofNat']
  omega

variable {fetch : UInt16 → Instruction} {state : TrackState}

/-- From an instruction that is fetched the cursor goes on to another one, to the high byte of a
target, or behind the routine. -/
theorem cursor_execute_of_starts (arithmetic : Arithmetic)
    (starts : Starts routine.instructions state.cursor.toNat instruction)
    (anchor : instruction.Forward ∨
      ∃ first, Starts routine.instructions state.sectionAnchor.toNat first) :
    (∃ next, Starts routine.instructions (state.execute arithmetic instruction).1.cursor.toNat next) ∨
    (∃ condition target, instruction = .jump condition target ∧ condition.holds state.flag = false ∧
      (state.execute arithmetic instruction).1.cursor.toNat = state.cursor.toNat + 2) ∨
    (instruction = .halt ∧
      (state.execute arithmetic instruction).1.cursor.toNat = routine.size) := by
  have fits := end_le_size starts
  rw [TrackState.cursor_execute]
  -- all instructions but jumps and repeats step over their own bytes
  have onward :
      (∃ next, Starts routine.instructions (state.cursor + UInt16.ofNat instruction.size).toNat next) ∨
      instruction = .halt ∧ (state.cursor + UInt16.ofNat instruction.size).toNat = routine.size := by
    rw [toNat_add_of_le fits]
    obtain ⟨next, starts'⟩ | ⟨rfl, ended⟩ := starts_next starts
    · exact .inl ⟨next, starts'⟩
    · exact .inr ⟨rfl, ended⟩
  cases instruction with
  | jump condition target =>
    by_cases taken : condition.holds state.flag
    · simp only [taken, if_true]
      exact .inl (targets_of_starts starts)
    · have within : state.cursor.toNat + 3 ≤ routine.size := fits
      have skipped : (state.cursor + 2).toNat = state.cursor.toNat + 2 :=
        toNat_add_of_le (by omega : state.cursor.toNat + 2 ≤ routine.size)
      simp only [taken]
      exact .inr (.inl ⟨condition, target, rfl, by simpa using taken, skipped⟩)
  | repeatSection condition =>
    by_cases taken : condition.holds state.flag
    · simp only [taken, if_true]
      exact .inl (anchor.resolve_left fun forward => forward)
    · simp only [taken]
      exact onward.imp_right .inr
  | _ => exact onward.imp_right .inr

/-- A single byte in place of the high byte of a target is followed by the next instruction. -/
theorem starts_execute_of_high (arithmetic : Arithmetic) {condition : Condition} {target : UInt16}
    (starts : Starts routine.instructions offset (.jump condition target))
    (place : state.cursor.toNat = offset + 2) (single : instruction.size = 1)
    (forward : instruction.Forward) :
    ∃ next, Starts routine.instructions (state.execute arithmetic instruction).1.cursor.toNat next := by
  have fits : offset + 3 ≤ routine.size := end_le_size starts
  have moved : (state.execute arithmetic instruction).1.cursor.toNat = offset + 3 := by
    have within : state.cursor.toNat + instruction.size ≤ routine.size := by omega
    have beyond : (state.cursor + UInt16.ofNat instruction.size).toNat = offset + 3 := by
      rw [toNat_add_of_le within, place, single]
    rw [TrackState.cursor_execute]
    cases instruction with
    | jump condition target => cases single
    | repeatSection condition => exact forward.elim
    | _ => exact beyond
  obtain next | ⟨impossible, -⟩ := starts_next starts
  · exact moved ▸ next
  · cases impossible

/-- One instruction keeps the invariant, or it was the last `halt`. -/
theorem execute_holds (arithmetic : Arithmetic) (placed : routine.Placed fetch)
    (holds : routine.Holds state) :
    routine.Holds (state.execute arithmetic (fetch state.cursor)).1 ∨
      fetch state.cursor = .halt ∧
        (state.execute arithmetic (fetch state.cursor)).1.cursor.toNat = routine.size := by
  obtain ⟨cursor, anchor⟩ := holds
  generalize place : state.cursor.toNat = offset at cursor
  cases cursor with
  | @start _ instruction starts =>
    subst place
    rw [placed.start _ _ starts]
    have anchor' : ∃ first, Starts routine.instructions
        (state.execute arithmetic instruction).1.sectionAnchor.toNat first := by
      rw [TrackState.sectionAnchor_execute]
      split
      · exact ⟨instruction, starts⟩
      · exact anchor
    obtain ⟨next, reached⟩ | ⟨condition, target, rfl, skips, skipped⟩ | ended :=
      cursor_execute_of_starts arithmetic starts (.inr anchor)
    · exact .inl ⟨.start reached, anchor'⟩
    · have conditional : condition ≠ .always := by
        rintro rfl
        cases skips
      exact .inl ⟨skipped ▸ .high conditional starts, anchor'⟩
    · exact .inr ended
  | @high offset condition target conditional starts =>
    -- behind a jump that was not taken, a zero is executed before the next instruction
    rw [placed.high _ _ _ _ place starts]
    obtain ⟨next, starts'⟩ := starts_execute_of_high arithmetic starts place
      (show Instruction.nop.size = 1 from rfl) trivial
    exact .inl ⟨.start starts', by simpa [TrackState.sectionAnchor_execute] using anchor⟩

end Routine

/-! ## Programs -/

/-- A routine whose targets have a zero as their high byte. -/
structure Program extends Routine where
  short : (bytesOf (body ++ [.halt])).length ≤ 256

theorem Program.size_le (program : Program) : program.size ≤ 256 :=
  program.short

/-- A buffer that holds the bytes of a program is read as the program from there. -/
theorem Program.placed_decode (program : Program) {code : Bytecode} {base : Nat}
    {before after : List UInt8}
    (layout : code.toList = before ++ (bytesOf program.instructions ++ after))
    (start : before.length = base) :
    program.Placed fun cursor => code.decode (base + cursor.toNat) := by
  subst start
  constructor
  · intro cursor instruction starts
    exact decode_of_starts layout (Routine.canonical_of_starts starts) starts
  · intro cursor offset condition target place starts
    -- the target of a jump is an instruction, so it lies below 256
    obtain ⟨first, reached⟩ := Routine.targets_of_starts starts
    have small := (Routine.Inside.start reached).lt_size
    have short := program.size_le
    apply Bytecode.decode_of_zero
    rw [place, byteAt_of_starts_jump layout starts, Nat.div_eq_of_lt (by omega)]
    rfl

end Sequencer
