import Mathlib.Data.List.DropRight
import Sequencer.Proofs.Track.History
import Sequencer.Proofs.Track.Phases
import Sequencer.Proofs.Track.Residues

/-!
# What the register holds

The register is a running sum: a `set` begins it anew, an `add` or a `sub` goes on with it.  One
way of arithmetic keeps of this sum what a byte can hold, the other what a word of 32 bits can
hold.

* `balance` — the sum that instructions amount to, from the last `set` on.  `balanceSinceReset` is
  that of the steps of a track.
* `Reaches.register_emod`, `Reaches.isByte_register`, `Reaches.register_bmod` — what the register
  has to do with the balance of the instructions since the last reset, after any steps.
* `TrackState.Reads` — what the instructions make of the register that look at it.
* `Track.unmasked_register_wraps` — a register of 32 bits.  `Track.executed_of_steady` counts the
  additions of a program that does nothing else, and `Track.rising_register_wraps` runs one until
  the sum does not fit.
* `Track.wrapping_register_isByte` — a register that is kept to a byte.
-/

namespace Sequencer

/-! ## Running sums -/

/-- The operand of the last `set`, or zero if there is none, and behind it the operands of all
additions less those of all subtractions. -/
def balance (instructions : List Instruction) : Int :=
  (instructions.filterMap Instruction.setting?).getLast?.getD 0 +
    ((instructions.rtakeWhile (·.setting?.isNone)).map Instruction.gain).sum

theorem balance_concat (instructions : List Instruction) (last : Instruction) :
    balance (instructions ++ [last]) = last.setting?.getD (balance instructions + last.gain) := by
  cases sets : last.setting? with
  | none =>
    -- the last `set` is the same, and one more instruction stands behind it
    simp [balance, sets, Int.add_assoc]
  | some value => simp [balance, sets]

/-- The balance of the instructions executed since the last reset. -/
def balanceSinceReset (fetch : UInt16 → Instruction) (steps : List TrackStep) : Int :=
  balance (executedSinceReset fetch steps)

theorem balanceSinceReset_execute (fetch : UInt16 → Instruction) (steps : List TrackStep)
    (state : TrackState) :
    balanceSinceReset fetch (steps ++ [.execute state]) =
      (fetch state.cursor).setting?.getD
        (balanceSinceReset fetch steps + (fetch state.cursor).gain) := by
  rw [balanceSinceReset, executedSinceReset_execute, balance_concat]
  rfl

theorem balanceSinceReset_reset (fetch : UInt16 → Instruction) (steps : List TrackStep) :
    balanceSinceReset fetch (steps ++ [.reset]) = 0 := by
  rw [balanceSinceReset, executedSinceReset_reset]
  rfl

/-- Additions of one number and nothing else. -/
theorem balance_replicate_add (count : Nat) (value : UInt8) :
    balance (List.replicate count (.add value)) = count * value.toNat := by
  induction count with
  | zero => simp [balance]
  | succ count ih =>
    rw [List.replicate_succ', balance_concat, ih, Int.natCast_succ, Int.add_mul, Int.one_mul]
    rfl

/-! ## Sums in a register -/

/-- A byte leaves room in a word for one more operand. -/
theorem toInt_add_of_isByte {register amount : Int32} (byte : IsByte register.toInt)
    (small : amount.toInt.natAbs < 256) :
    (register + amount).toInt = register.toInt + amount.toInt := by
  obtain ⟨nonneg, less⟩ := byte
  rw [Int32.toInt_add]
  exact bmod_eq_self_iff_isWord.mpr ⟨by omega, by omega⟩

namespace Instruction

variable {register : Int32} {sum : Int}

/-- The step modulo 32 bits, where nothing else is cut off. -/
theorem registerAfter_bmod_sum (wraps : register.toInt = sum.bmod (2 ^ 32))
    (instruction : Instruction) :
    (instruction.registerAfter .unmasked register).toInt =
      (instruction.setting?.getD (sum + instruction.gain)).bmod (2 ^ 32) := by
  cases instruction with
  | set value =>
    -- a byte is far from where a word wraps around
    have bound := value.toNat_lt
    rw [registerAfter, toInt_ofNat_byte]
    exact (bmod_eq_self_iff_isWord.mpr ⟨by omega, by omega⟩).symm
  | add value =>
    rw [registerAfter, Arithmetic.add, Int32.toInt_add, wraps, toInt_ofNat_byte, Int.bmod_add_bmod]
    rfl
  | sub value =>
    rw [registerAfter, Arithmetic.add, Int32.toInt_add, wraps, toInt_neg_ofNat_byte,
      Int.bmod_add_bmod]
    rfl
  | _ => simpa [registerAfter, setting?, gain] using wraps

end Instruction

namespace TrackState

/-! ## The register after any steps -/

section Reaches

variable {arithmetic : Arithmetic} {fetch : UInt16 → Instruction} {steps : List TrackStep}
  {state other : TrackState}

theorem register_congr (same : other.lasting = state.lasting) :
    other.register = state.register := by
  simpa using congrArg register same

theorem Reaches.register_emod (reached : Reaches arithmetic fetch steps state) :
    state.register.toInt % 256 = balanceSinceReset fetch steps % 256 := by
  induction reached with
  | fresh => rfl
  | execute reached ih =>
    rw [balanceSinceReset_execute, next, register_execute]
    exact Instruction.registerAfter_emod_sum ih arithmetic _
  | reset reached ih =>
    rw [balanceSinceReset_reset]
    rfl
  | pass reached same ih => rw [register_congr same, ih]

theorem Reaches.isByte_register (reached : Reaches .wrapping fetch steps state) :
    IsByte state.register.toInt := by
  induction reached with
  | fresh => exact ⟨by decide, by decide⟩
  | execute reached ih =>
    rw [next, register_execute]
    exact Instruction.isByte_registerAfter ih _
  | reset reached ih => exact ⟨by decide, by decide⟩
  | pass reached same ih => rwa [register_congr same]

theorem Reaches.register_bmod (reached : Reaches .unmasked fetch steps state) :
    state.register.toInt = (balanceSinceReset fetch steps).bmod (2 ^ 32) := by
  induction reached with
  | fresh => rfl
  | execute reached ih =>
    rw [balanceSinceReset_execute, next, register_execute]
    exact Instruction.registerAfter_bmod_sum ih _
  | reset reached ih =>
    rw [balanceSinceReset_reset]
    rfl
  | pass reached same ih => rw [register_congr same, ih]

end Reaches

/-! ## Instructions that look at the register -/

/-- What an instruction that is fetched in this state makes of the register: a comparison sees it
as this number, and what is selected or played is this operand. -/
structure Reads (arithmetic : Arithmetic) (fetch : UInt16 → Instruction) (state : TrackState)
    (number : Int) (operand : Nat) : Prop where
  compares : ∀ relation value, fetch state.cursor = .compare relation value →
    (state.next arithmetic fetch).flag = relation.holds number value.toNat
  selects : fetch state.cursor = .instrumentSet → ∃ index : UInt8, index.toNat = operand ∧
    (state.execute arithmetic (fetch state.cursor)).2 = some (.instrument index) ∧
    (state.next arithmetic fetch).instrument = index
  plays : fetch state.cursor = .playSet → ∃ pitch : UInt8, pitch.toNat = operand ∧
    (state.execute arithmetic (fetch state.cursor)).2 = some (.play pitch) ∧
    (state.next arithmetic fetch).note = pitch

theorem toNat_registerByte (state : TrackState) :
    state.registerByte.toNat = state.register.toInt.natAbs % 256 :=
  UInt8.toNat_ofNat'

theorem reads_register (arithmetic : Arithmetic) (fetch : UInt16 → Instruction)
    (state : TrackState) :
    state.Reads arithmetic fetch state.register.toInt (state.register.toInt.natAbs % 256) := by
  refine ⟨fun relation value fetched => ?_, fun fetched => ?_, fun fetched => ?_⟩
  · rw [next, fetched]
    rfl
  · rw [next, fetched]
    exact ⟨state.registerByte, state.toNat_registerByte, rfl, rfl⟩
  · rw [next, fetched]
    exact ⟨state.registerByte, state.toNat_registerByte, rfl, rfl⟩

end TrackState

/-! ## Frames with nothing but additions -/

namespace TrackState

/-- Whether the next frame executes instructions, and so does the frame behind it. -/
structure Steady (state : TrackState) : Prop where
  running : state.halted = false
  counted : state.tickCounter = 0
  resumed : state.waitCounter = 0
  rate : state.tickRate = 0

variable {fetch : UInt16 → Instruction} {value : UInt8} {state : TrackState}

theorem Steady.iterate_next (steady : state.Steady) (adds : ∀ cursor, fetch cursor = .add value)
    (arithmetic : Arithmetic) (count : Nat) :
    ((next arithmetic fetch)^[count] state).Steady := by
  induction count with
  | zero => exact steady
  | succ count ih =>
    rw [Function.iterate_succ_apply', next, adds]
    exact ⟨ih.running, ih.counted, ih.resumed, ih.rate⟩

/-- A frame with nothing but additions executes as many of them as its limit says. -/
theorem Steady.dispatch (steady : state.Steady) (adds : ∀ cursor, fetch cursor = .add value)
    (config : TrackConfig) :
    (state.dispatch config fetch).1.Steady ∧
      state.executed config fetch = List.replicate config.maxInstructions (.add value) := by
  have counted : ¬0 < state.tickCounter := by simp [steady.counted]
  have resumed : ¬0 < state.waitCounter := by simp [steady.resumed]
  have ready : state.ready.Steady := ⟨steady.running, steady.rate, steady.resumed, steady.rate⟩
  have all (count : Nat) : state.ready.trace config.arithmetic fetch count =
      List.replicate count (.add value) := by
    rw [trace_eq_map]
    simp [adds, List.map_const']
  have quiet : state.ready.Quiet config.arithmetic fetch config.maxInstructions := by
    rw [Quiet, all]
    intro instruction member
    rw [List.eq_of_mem_replicate member]
    rfl
  obtain ⟨frame, executed⟩ := dispatch_of_ready config fetch steady.running counted resumed
  rw [frame, executed, quiet.phaseLength_eq, all]
  exact ⟨ready.iterate_next adds config.arithmetic _, rfl⟩

end TrackState

namespace Track

variable {track : Track} {code : Bytecode} {value : UInt8}

theorem steady_after (steady : track.state.Steady)
    (adds : ∀ cursor, track.fetch code cursor = .add value) (frames : Nat) :
    (track.after code frames).state.Steady := by
  induction frames with
  | zero => exact steady
  | succ frames ih =>
    rw [state_after_succ]
    exact (ih.dispatch adds track.config).1

theorem executed_of_steady (steady : track.state.Steady)
    (adds : ∀ cursor, track.fetch code cursor = .add value) (frames : Nat) :
    (List.range frames).flatMap (track.executedAt code) =
      List.replicate (frames * track.config.maxInstructions) (.add value) := by
  induction frames with
  | zero => simp
  | succ frames ih =>
    have last := ((steady_after steady adds frames).dispatch adds track.config).2
    rw [List.range_succ, List.flatMap_append, List.flatMap_singleton, ih, executedAt, last,
      Nat.succ_mul, List.replicate_add]

end Track

/-! ## A register of 32 bits -/

/-- Whether the register is what a word can hold of a sum.  It is the sum itself just if that
fits. -/
structure WordOf (register sum : Int) : Prop where
  wraps : register = sum.bmod (2 ^ 32)
  same_iff : register = sum ↔ IsWord sum

theorem wordOf_of_wraps {register sum : Int} (wraps : register = sum.bmod (2 ^ 32)) :
    WordOf register sum :=
  ⟨wraps, by rw [wraps, bmod_eq_self_iff_isWord]⟩

namespace Track

theorem reaches_inMode (base : UInt16) (limit : Nat) (arithmetic : Arithmetic) (code : Bytecode)
    (commands : List TrackCommand) :
    let track := inMode base limit arithmetic
    TrackState.Reaches arithmetic (track.fetch code) (track.steps code commands)
      (track.run code commands).1.state :=
  reaches_run_new base (TrackState.configOf limit arithmetic) code commands

theorem register_after_bmod (base : UInt16) (limit : Nat) (code : Bytecode) (frames : Nat) :
    let track := inMode base limit .unmasked
    (track.after code frames).state.register.toInt =
      (balance ((List.range frames).flatMap (track.executedAt code))).bmod (2 ^ 32) := by
  intro track
  have register :=
    (reaches_inMode base limit .unmasked code (List.replicate frames .dispatch)).register_bmod
  rw [run_replicate_dispatch, balanceSinceReset, executedSinceReset_frames] at register
  exact register

/-- After any number of frames, the register of a track that lets it run on is the balance of all
instructions executed so far, wrapped around at 32 bits, and the balance itself as long as it does
not leave that range.  Whatever else the host does, the same holds of the instructions since the
last reset, and whenever an instruction is fetched.  A comparison sees this number with its sign,
and its absolute value modulo 256 is what is selected or played. -/
theorem unmasked_register_wraps (code : Bytecode) (base : UInt16) (limit : Nat) :
    let track := inMode base limit .unmasked
    let fetch := track.fetch code
    let sum := balanceSinceReset fetch
    (∀ frames, WordOf (track.after code frames).state.register.toInt
      (balance ((List.range frames).flatMap (track.executedAt code)))) ∧
    ∀ commands,
      WordOf (track.run code commands).1.state.register.toInt (sum (track.steps code commands)) ∧
      ∀ before state after, track.steps code commands = before ++ .execute state :: after →
        WordOf state.register.toInt (sum before) ∧
        state.Reads .unmasked fetch ((sum before).bmod (2 ^ 32))
          (((sum before).bmod (2 ^ 32)).natAbs % 256) := by
  intro track fetch sum
  refine ⟨fun frames => wordOf_of_wraps (register_after_bmod base limit code frames), ?_⟩
  intro commands
  have reached := reaches_inMode base limit .unmasked code commands
  refine ⟨wordOf_of_wraps reached.register_bmod, fun before state after split => ?_⟩
  have register : state.register.toInt = (sum before).bmod (2 ^ 32) :=
    (reached.of_split split).register_bmod
  refine ⟨wordOf_of_wraps register, ?_⟩
  rw [← register]
  exact state.reads_register .unmasked fetch

/-- The second note of the program is played from a register below zero. -/
theorem unmasked_register_belowZero :
    let track := inMode 0 8 .unmasked
    let before : List TrackStep := [.execute {}, .execute { cursor := 2, register := 2 },
      .execute { cursor := 3, register := 2, note := 2 }]
    let state : TrackState := { cursor := 5, register := -3, note := 2 }
    track.steps belowZero [.dispatch, .dispatch] = before ++ .execute state :: [] ∧
      track.fetch belowZero state.cursor = .playSet ∧
      WordOf state.register.toInt (-3) ∧
      (state.next .unmasked (track.fetch belowZero)).note.toNat = 3 := by
  intro track before state
  have split : track.steps belowZero [.dispatch, .dispatch] = before ++ .execute state :: [] := by
    decide
  have fetched : track.fetch belowZero state.cursor = .playSet := by decide
  have sum : balanceSinceReset ((inMode 0 8 .unmasked).fetch belowZero) before = -3 := by decide
  obtain ⟨register, reads⟩ :=
    ((unmasked_register_wraps belowZero 0 8).2 [.dispatch, .dispatch]).2 _ _ _ split
  obtain ⟨pitch, operand, -, note⟩ := reads.plays fetched
  rw [sum] at register operand
  refine ⟨split, fetched, register, ?_⟩
  rw [note, operand]
  decide

/-- A program that goes round through all places a cursor can name and adds 244 at each it gets
to. -/
def rising : Bytecode :=
  Array.replicate 65537 Opcode.add.byte

theorem fetch_rising (limit : Nat) (arithmetic : Arithmetic) (cursor : UInt16) :
    (inMode 0 limit arithmetic).fetch rising cursor = .add 244 := by
  have bound := cursor.toNat_lt
  have byte : ∀ offset < 65537, rising.byteAt offset = Opcode.add.byte := by
    intro offset inside
    simp [rising, Bytecode.byteAt, inside]
  have here : (inMode 0 limit arithmetic).base.toNat + cursor.toNat = cursor.toNat := by
    simp [inMode]
  rw [fetch, here, Bytecode.decode, byte _ (by omega), byte _ (by omega), Opcode.ofByte?_byte]
  rfl

/-- After so many frames the register is below zero, although nothing has ever been taken from
it. -/
theorem rising_register_wraps :
    let track := inMode 0 255 .unmasked
    balance ((List.range 34515).flatMap (track.executedAt rising)) = 2147523300 ∧
      (track.after rising 34515).state.register.toInt = -2147443996 := by
  intro track
  have sum : balance ((List.range 34515).flatMap (track.executedAt rising)) = 2147523300 := by
    have steady : track.state.Steady := ⟨rfl, rfl, rfl, rfl⟩
    rw [executed_of_steady steady (fetch_rising 255 .unmasked), balance_replicate_add]
    decide
  refine ⟨sum, ?_⟩
  -- the run itself is far too long to be evaluated, but its sum is not
  rw [register_after_bmod 0 255 rising 34515, sum]
  decide

end Track

/-! ## A register that is kept to a byte -/

/-- Whether the register is a byte that stands for a sum. -/
structure ByteOf (register sum : Int) : Prop where
  isByte : IsByte register
  residue : register % 256 = sum % 256

/-- Whether the sum of the register and any operand, with either sign, fits into 32 bits. -/
def LeavesRoom (register : Int32) : Prop :=
  ∀ value : UInt8,
    (register + Int32.ofNat value.toNat).toInt = register.toInt + value.toNat ∧
      (register + -Int32.ofNat value.toNat).toInt = register.toInt - value.toNat

theorem leavesRoom_of_isByte {register : Int32} (byte : IsByte register.toInt) :
    LeavesRoom register := by
  intro value
  have bound := value.toNat_lt
  have plus := toInt_ofNat_byte value
  have minus := toInt_neg_ofNat_byte value
  rw [toInt_add_of_isByte byte (by omega), toInt_add_of_isByte byte (by omega), plus, minus]
  exact ⟨rfl, rfl⟩

namespace TrackState

variable {fetch : UInt16 → Instruction} {state : TrackState}

/-- Of a register that is a byte, the operand is the register itself. -/
theorem reads_of_isByte (byte : IsByte state.register.toInt) (arithmetic : Arithmetic) :
    state.Reads arithmetic fetch state.register.toInt state.register.toInt.toNat := by
  have reads := state.reads_register arithmetic fetch
  obtain ⟨nonneg, less⟩ := byte
  rwa [show state.register.toInt.natAbs % 256 = state.register.toInt.toNat by omega] at reads

/-- Comparisons to zero, of a register that is never below it. -/
theorem Reads.flag_of_zero {arithmetic : Arithmetic} {number : Int} {operand : Nat}
    (reads : state.Reads arithmetic fetch number operand) (nonneg : 0 ≤ number) :
    (fetch state.cursor = .compare .atMost 0 →
      ((state.next arithmetic fetch).flag = true ↔ number = 0)) ∧
    (fetch state.cursor = .compare .atLeast 0 → (state.next arithmetic fetch).flag = true) := by
  refine ⟨fun fetched => ?_, fun fetched => ?_⟩
  · rw [reads.compares _ _ fetched, Comparison.holds, decide_eq_true_iff]
    simp only [UInt8.toNat_zero]
    omega
  · rw [reads.compares _ _ fetched, Comparison.holds, decide_eq_true_iff]
    exact nonneg

end TrackState

namespace Track

/-- After any commands, and whenever an instruction is fetched, the register of a track that keeps
it to a byte is one, and stands for the balance of the instructions executed since the track was
reset.  So no addition or subtraction overflows, what is selected or played is the register, it is
at most zero only if it is zero, and it is always at least zero. -/
theorem wrapping_register_isByte (code : Bytecode) (base : UInt16) (limit : Nat)
    (commands : List TrackCommand) :
    let track := inMode base limit .wrapping
    let fetch := track.fetch code
    let sum := balanceSinceReset fetch
    ByteOf (track.run code commands).1.state.register.toInt (sum (track.steps code commands)) ∧
    ∀ before state after, track.steps code commands = before ++ .execute state :: after →
      let register := state.register.toInt
      ByteOf register (sum before) ∧ LeavesRoom state.register ∧
      state.Reads .wrapping fetch register register.toNat ∧
      (fetch state.cursor = .compare .atMost 0 →
        ((state.next .wrapping fetch).flag = true ↔ register = 0)) ∧
      (fetch state.cursor = .compare .atLeast 0 → (state.next .wrapping fetch).flag = true) := by
  intro track fetch sum
  have reached := reaches_inMode base limit .wrapping code commands
  refine ⟨⟨reached.isByte_register, reached.register_emod⟩, fun before state after split => ?_⟩
  have here := reached.of_split split
  have byte := here.isByte_register
  have reads : state.Reads .wrapping fetch state.register.toInt state.register.toInt.toNat :=
    TrackState.reads_of_isByte byte .wrapping
  exact ⟨⟨byte, here.register_emod⟩, leavesRoom_of_isByte byte, reads,
    reads.flag_of_zero byte.1⟩

/-- The program is reset behind its first note.  Played again, it comes to the balance -3 before
its second note, which is 253. -/
theorem wrapping_register_belowZero :
    let track := inMode 0 8 .wrapping
    let commands : List TrackCommand := [.dispatch, .reset, .dispatch, .dispatch]
    let before : List TrackStep := [.execute {}, .execute { cursor := 2, register := 2 }, .reset,
      .execute {}, .execute { cursor := 2, register := 2 },
      .execute { cursor := 3, register := 2, note := 2 }]
    let state : TrackState := { cursor := 5, register := 253, note := 2 }
    track.steps belowZero commands = before ++ .execute state :: [] ∧
      track.fetch belowZero state.cursor = .playSet ∧
      ByteOf state.register.toInt (-3) ∧
      (state.next .wrapping (track.fetch belowZero)).note.toNat = 253 := by
  intro track commands before state
  have split : track.steps belowZero commands = before ++ .execute state :: [] := by decide
  have fetched : track.fetch belowZero state.cursor = .playSet := by decide
  have sum : balanceSinceReset ((inMode 0 8 .wrapping).fetch belowZero) before = -3 := by decide
  obtain ⟨register, -, reads, -⟩ :=
    (wrapping_register_isByte belowZero 0 8 commands).2 _ _ _ split
  obtain ⟨pitch, operand, -, note⟩ := reads.plays fetched
  rw [sum] at register
  refine ⟨split, fetched, register, ?_⟩
  rw [note, operand]
  decide

end Track

end Sequencer
