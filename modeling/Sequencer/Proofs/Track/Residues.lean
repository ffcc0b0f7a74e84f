import Mathlib.Algebra.GroupWithZero.Nat
import Mathlib.Algebra.Order.Ring.Int
import Mathlib.Data.List.Forall2
import Sequencer.Proofs.Track.Schedule

/-!
# The two ways of arithmetic

One way keeps the register a byte, the other lets it run on to 32 bits.  Modulo 256 they agree
whatever is added, so a track goes the same way in both for as long as it does not look at its
register, which only a comparison does.  What it plays from its register may differ below zero,
where an operand is an absolute value.

* `Arithmetic.toInt_add_emod`, `Arithmetic.toInt_add_wrapping` — what both ways have in common,
  and what one of them has to itself.
* `Instruction.registerAfter_emod_sum` — what an instruction puts into the register or adds to it,
  modulo 256.
* `TrackState.Congruent` — the invariant.  `Congruent.execute` is about one instruction,
  `Congruent.phase` about a phase, and `Congruent.dispatch` about a frame.
* `Request` — an event with the instruction that asks for it.
* `Track.congruent_until_comparison` — a track run in both ways.
-/

namespace Sequencer

/-! ## Sums -/

/-- What is cut off at 32 bits is not missed in a byte. -/
theorem bmod_emod_byte (n : Int) : (n.bmod (2 ^ 32)) % 256 = n % 256 := by
  have word : n.bmod (2 ^ 32) % ((2 ^ 32 : Nat) : Int) = n % ((2 ^ 32 : Nat) : Int) :=
    Int.bmod_emod
  have dvd : (256 : Int) ∣ ((2 ^ 32 : Nat) : Int) := by decide
  rw [← Int.emod_emod_of_dvd _ dvd, word, Int.emod_emod_of_dvd _ dvd]

namespace Arithmetic

/-- Kept to a byte, the register is one. -/
theorem toInt_add_wrapping (register amount : Int32) :
    (wrapping.add register amount).toInt = (register.toInt + amount.toInt) % 256 := by
  have nonneg := Int.emod_nonneg (register + amount).toInt (show (256 : Int) ≠ 0 by decide)
  have small := Int.emod_lt_of_pos (register + amount).toInt (show (0 : Int) < 256 by decide)
  rw [add, Int32.toInt_ofInt_of_le (by omega) (by omega), Int32.toInt_add, bmod_emod_byte]

theorem toInt_add_emod (arithmetic : Arithmetic) (register amount : Int32) :
    (arithmetic.add register amount).toInt % 256 = (register.toInt + amount.toInt) % 256 := by
  cases arithmetic with
  | wrapping => rw [toInt_add_wrapping, Int.emod_emod]
  | unmasked => rw [add, Int32.toInt_add, bmod_emod_byte]

end Arithmetic

/-- Whether a number is one that a byte can hold. -/
def IsByte (n : Int) : Prop :=
  0 ≤ n ∧ n < 256

theorem IsByte.exists_toNat {n : Int} (isByte : IsByte n) : ∃ byte : UInt8, n = byte.toNat := by
  obtain ⟨nonneg, small⟩ := isByte
  refine ⟨UInt8.ofNat n.toNat, ?_⟩
  rw [UInt8.toNat_ofNat']
  omega

theorem toInt_ofNat_byte (value : UInt8) : (Int32.ofNat value.toNat).toInt = value.toNat := by
  have bound := value.toNat_lt
  exact Int32.toInt_ofNat_of_lt (by omega)

/-- Whether a number is one that a word of 32 bits can hold with its sign. -/
def IsWord (n : Int) : Prop :=
  -2 ^ 31 ≤ n ∧ n < 2 ^ 31

theorem bmod_eq_self_iff_isWord {n : Int} : n.bmod (2 ^ 32) = n ↔ IsWord n := by
  constructor
  · intro same
    have least := @Int.le_bmod n (2 ^ 32) (by decide)
    have greatest := @Int.bmod_lt n (2 ^ 32) (by decide)
    exact ⟨by omega, by omega⟩
  · rintro ⟨least, greatest⟩
    exact Int.bmod_eq_of_le (by omega) (by omega)

theorem toInt_neg_ofNat_byte (value : UInt8) :
    (-Int32.ofNat value.toNat).toInt = -value.toNat := by
  have bound := value.toNat_lt
  rw [Int32.toInt_neg, toInt_ofNat_byte]
  exact bmod_eq_self_iff_isWord.mpr ⟨by omega, by omega⟩

theorem isByte_toInt_ofNat (value : UInt8) : IsByte (Int32.ofNat value.toNat).toInt := by
  have bound := value.toNat_lt
  rw [toInt_ofNat_byte]
  exact ⟨by omega, by omega⟩

namespace Instruction

/-- The number that the instruction puts into the register. -/
def setting? : Instruction → Option Int
  | set value => some value.toNat
  | _ => none

/-- What the instruction adds to the register. -/
def gain : Instruction → Int
  | add value => value.toNat
  | sub value => -value.toNat
  | _ => 0

/-- Whether the instruction compares the register to its operand. -/
def compares : Instruction → Bool
  | compare _ _ => true
  | _ => false

/-- Whether the instruction takes its operand from the register. -/
def usesRegister : Instruction → Bool
  | instrumentSet | playSet => true
  | _ => false

theorem compares_of_endsTick {instruction : Instruction} (ends : instruction.endsTick = true) :
    instruction.compares = false := by
  cases instruction with
  | compare => cases ends
  | _ => rfl

theorem isByte_registerAfter {register : Int32} (byte : IsByte register.toInt)
    (instruction : Instruction) :
    IsByte (instruction.registerAfter .wrapping register).toInt := by
  cases instruction with
  | set value => exact isByte_toInt_ofNat value
  | add | sub =>
    rw [registerAfter, Arithmetic.toInt_add_wrapping]
    exact ⟨Int.emod_nonneg _ (by decide), Int.emod_lt_of_pos _ (by decide)⟩
  | _ => exact byte

/-- Modulo 256, both ways of arithmetic begin a sum anew or go on with it. -/
theorem registerAfter_emod_sum {register : Int32} {sum : Int}
    (residue : register.toInt % 256 = sum % 256) (arithmetic : Arithmetic)
    (instruction : Instruction) :
    (instruction.registerAfter arithmetic register).toInt % 256 =
      instruction.setting?.getD (sum + instruction.gain) % 256 := by
  cases instruction with
  | set value =>
    rw [registerAfter, toInt_ofNat_byte]
    rfl
  | add value =>
    rw [registerAfter, Arithmetic.toInt_add_emod, toInt_ofNat_byte, Int.add_emod, residue,
      ← Int.add_emod]
    rfl
  | sub value =>
    rw [registerAfter, Arithmetic.toInt_add_emod, toInt_neg_ofNat_byte, Int.add_emod, residue,
      ← Int.add_emod]
    rfl
  | _ => simpa [registerAfter, setting?, gain] using residue

theorem registerAfter_emod {register other : Int32}
    (residue : register.toInt % 256 = other.toInt % 256) (arithmetic arithmetic' : Arithmetic)
    (instruction : Instruction) :
    (instruction.registerAfter arithmetic register).toInt % 256 =
      (instruction.registerAfter arithmetic' other).toInt % 256 := by
  rw [registerAfter_emod_sum residue, registerAfter_emod_sum rfl]

/-- What is raised without a look at the register is the same with any other. -/
theorem event?_of_not_usesRegister {instruction : Instruction}
    (blind : instruction.usesRegister = false) (register other : Int32) :
    instruction.event? register = instruction.event? other := by
  cases instruction with
  | instrumentSet | playSet => cases blind
  | _ => rfl

end Instruction

/-! ## Requests -/

/-- An event with what it comes from: the instruction that raises it and the register by then, or
nothing where a halted track reports the halt again. -/
structure Request where
  cause : Option (Instruction × Int)
  event : Event
deriving Repr, DecidableEq, Inhabited

/-- What is taken from a register, where another that stands for the same byte gives the byte
itself.  Below zero it is what the byte lacks to 256. -/
def operandOf (register : Int) (byte : UInt8) : UInt8 :=
  if 0 ≤ register then byte else UInt8.ofNat ((256 - byte.toNat) % 256)

/-- What a track asks for in both ways of arithmetic, first with the register kept to a byte. -/
inductive Request.Counterpart : Request → Request → Prop where
  | report : Counterpart ⟨none, .halt⟩ ⟨none, .halt⟩
  | same {instruction : Instruction} {register register' : Int} {event : Event}
      (blind : instruction.usesRegister = false) :
      Counterpart ⟨some (instruction, register), event⟩ ⟨some (instruction, register'), event⟩
  | instrument {byte : UInt8} {register : Int} (residue : register % 256 = byte.toNat) :
      Counterpart ⟨some (.instrumentSet, byte.toNat), .instrument byte⟩
        ⟨some (.instrumentSet, register), .instrument (operandOf register byte)⟩
  | play {byte : UInt8} {register : Int} (residue : register % 256 = byte.toNat) :
      Counterpart ⟨some (.playSet, byte.toNat), .play byte⟩
        ⟨some (.playSet, register), .play (operandOf register byte)⟩

/-- The absolute value of a register is the byte above zero, and what it lacks to 256 below. -/
theorem ofNat_natAbs_eq_operandOf {register : Int} {byte : UInt8}
    (residue : register % 256 = byte.toNat) :
    UInt8.ofNat register.natAbs = operandOf register byte := by
  have bound := byte.toNat_lt
  apply UInt8.toNat_inj.mp
  unfold operandOf
  split <;> simp only [UInt8.toNat_ofNat'] <;> omega

namespace TrackState

/-! ## States in both ways of arithmetic -/

/-- The state without its register and without what may have been taken from it. -/
def unregistered (state : TrackState) : TrackState :=
  { state with register := 0, note := 0, instrument := 0 }

/-- Whether the states agree but for their registers, which stand for the same byte, and what may
have been taken from them.  The register of the first is that byte. -/
structure Congruent (masked raw : TrackState) : Prop where
  same : masked.unregistered = raw.unregistered
  byte : IsByte masked.register.toInt
  residue : raw.register.toInt % 256 = masked.register.toInt % 256

theorem execute_unregistered {instruction : Instruction} (blind : instruction.compares = false)
    (arithmetic arithmetic' : Arithmetic) (state : TrackState) :
    (state.unregistered.execute arithmetic instruction).1.unregistered =
      (state.execute arithmetic' instruction).1.unregistered := by
  cases instruction with
  | compare => cases blind
  | jump condition target | repeatSection condition =>
    by_cases taken : condition.holds state.flag <;>
      simp [execute, branch, advance, unregistered, taken]
  | _ => simp [execute, advance, select, sound, unregistered]

theorem Congruent.start : Congruent {} {} :=
  ⟨rfl, ⟨by decide, by decide⟩, rfl⟩

section Congruence

variable {masked raw : TrackState} {fetch : UInt16 → Instruction} {instruction : Instruction}

/-- What can be told of a state without its register is the same of both. -/
theorem Congruent.agree (congruent : Congruent masked raw) {α : Type} (view : TrackState → α)
    (unseen : ∀ state, view state.unregistered = view state) : view masked = view raw := by
  rw [← unseen masked, congruent.same, unseen]

theorem Congruent.cursor_eq (congruent : Congruent masked raw) : masked.cursor = raw.cursor :=
  congruent.agree cursor fun _ => rfl

theorem Congruent.ready (congruent : Congruent masked raw) : Congruent masked.ready raw.ready := by
  have same := congruent.agree (fun state => state.ready.unregistered) fun _ => rfl
  exact ⟨same, congruent.byte, congruent.residue⟩

/-- The step: any instruction but a comparison keeps the states congruent. -/
theorem Congruent.execute (congruent : Congruent masked raw)
    (blind : instruction.compares = false) :
    Congruent (masked.execute .wrapping instruction).1 (raw.execute .unmasked instruction).1 := by
  refine ⟨?_, ?_, ?_⟩
  · rw [← execute_unregistered blind .wrapping, congruent.same, execute_unregistered blind]
  · rw [register_execute]
    exact instruction.isByte_registerAfter congruent.byte
  · rw [register_execute, register_execute]
    exact Instruction.registerAfter_emod congruent.residue _ _ instruction

theorem Congruent.next (congruent : Congruent masked raw)
    (blind : (fetch masked.cursor).compares = false) :
    Congruent (masked.next .wrapping fetch) (raw.next .unmasked fetch) := by
  rw [TrackState.next, TrackState.next, ← congruent.cursor_eq]
  exact congruent.execute blind

/-- Whether there is no comparison among the instructions. -/
def Uncompared (instructions : List Instruction) : Prop :=
  ∀ instruction ∈ instructions, instruction.compares = false

/-- The run of a phase: both states go through it in step. -/
theorem Congruent.phase (congruent : Congruent masked raw) (limit : Nat)
    (uncompared :
      Uncompared (masked.trace .wrapping fetch (masked.phaseLength .wrapping fetch limit)) ∨
        Uncompared (raw.trace .unmasked fetch (raw.phaseLength .unmasked fetch limit))) :
    raw.phaseLength .unmasked fetch limit = masked.phaseLength .wrapping fetch limit ∧
      ∀ count ≤ masked.phaseLength .wrapping fetch limit,
        Congruent ((TrackState.next .wrapping fetch)^[count] masked)
          ((TrackState.next .unmasked fetch)^[count] raw) := by
  -- the fetched instruction is the same in both states, so both end the phase or both go on
  induction limit generalizing masked raw with
  | zero =>
    refine ⟨rfl, fun count within => ?_⟩
    obtain rfl : count = 0 := Nat.le_zero.mp within
    exact congruent
  | succ limit ih =>
    have fetched := congruent.cursor_eq
    simp only [phaseLength, ← fetched] at uncompared ⊢
    split
    next ends =>
      have blind := Instruction.compares_of_endsTick ends
      refine ⟨rfl, fun count within => ?_⟩
      obtain rfl | rfl := Nat.le_one_iff_eq_zero_or_eq_one.mp within
      · exact congruent
      · exact congruent.next blind
    next goesOn =>
      simp only [goesOn, Bool.false_eq_true, if_false, trace, Uncompared, List.forall_mem_cons,
        ← fetched] at uncompared
      have blind := uncompared.elim And.left And.left
      obtain ⟨length, states⟩ := ih (congruent.next blind) (uncompared.imp And.right And.right)
      refine ⟨by rw [length], fun count within => ?_⟩
      cases count with
      | zero => exact congruent
      | succ count => exact states count (by omega)

end Congruence

/-! ## Frames -/

section Requests

variable (arithmetic : Arithmetic) (fetch : UInt16 → Instruction)

/-- What a track asks for by the instruction that it fetches in a state. -/
def request? (state : TrackState) : Option Request :=
  ((fetch state.cursor).event? state.register).map fun event =>
    ⟨some (fetch state.cursor, state.register.toInt), event⟩

/-- What a track asks for in the next frame. -/
def requests (config : TrackConfig) (state : TrackState) : List Request :=
  if state.halted then [⟨none, .halt⟩] else (state.fetching config fetch).filterMap (request? fetch)

theorem heard_eq_filterMap (count : Nat) (state : TrackState) :
    state.heard arithmetic fetch count =
      ((List.range count).map fun passed => (next arithmetic fetch)^[passed] state).filterMap
        fun state => (fetch state.cursor).event? state.register := by
  induction count with
  | zero => rfl
  | succ count ih =>
    rw [heard_add, ih, List.range_succ, List.map_append, List.filterMap_append, heard, heard,
      List.append_nil, event_execute, List.map_singleton]
    cases raised : (fetch ((next arithmetic fetch)^[count] state).cursor).event?
      ((next arithmetic fetch)^[count] state).register <;> simp [raised]

/-- These are the events of the frame. -/
theorem map_event_requests (config : TrackConfig) (state : TrackState) :
    (state.requests fetch config).map Request.event = (state.dispatch config fetch).2 := by
  by_cases halted : state.halted = true
  · rw [(dispatch_of_halted config fetch halted).1, requests, if_pos halted]
    rfl
  have running : state.halted = false := by simpa using halted
  have event : (fun state => (request? fetch state).map Request.event) =
      fun state => (fetch state.cursor).event? state.register := by
    funext state
    rw [request?, Option.map_map]
    exact Option.map_id'
  rw [requests, if_neg halted, List.map_filterMap, event]
  by_cases counting : 0 < state.tickCounter
  · rw [(dispatch_of_counting config fetch running counting).1]
    simp [fetching, counting]
  by_cases pausing : 0 < state.waitCounter
  · rw [(dispatch_of_pausing config fetch running counting pausing).1]
    simp [fetching, pausing]
  · rw [(dispatch_of_ready config fetch running counting pausing).1, heard_eq_filterMap, fetching,
      if_neg (by simp [running, counting, pausing])]

end Requests

section Frames

variable {masked raw : TrackState} {fetch : UInt16 → Instruction} {limit : Nat}

theorem Congruent.halted_eq (congruent : Congruent masked raw) : masked.halted = raw.halted :=
  congruent.agree halted fun _ => rfl

/-- Congruent states ask for the same by the same instruction, but for operands from the
register. -/
theorem Congruent.request (congruent : Congruent masked raw) :
    Option.Rel Request.Counterpart (request? fetch masked) (request? fetch raw) := by
  rw [request?, request?, ← congruent.cursor_eq]
  cases uses : (fetch masked.cursor).usesRegister with
  | false =>
    rw [Instruction.event?_of_not_usesRegister uses masked.register raw.register]
    cases (fetch masked.cursor).event? raw.register with
    | none => exact .none
    | some event => exact .some (.same uses)
  | true =>
    obtain ⟨byte, register⟩ := congruent.byte.exists_toNat
    have residue : raw.register.toInt % 256 = byte.toNat := by
      have bound := byte.toNat_lt
      rw [congruent.residue, register]
      omega
    have operand : UInt8.ofNat (byte.toNat : Int).natAbs = byte := by simp
    have operand' := ofNat_natAbs_eq_operandOf residue
    cases found : fetch masked.cursor with
    | instrumentSet =>
      rw [Instruction.event?, Instruction.event?, register, operand, operand']
      exact .some (.instrument residue)
    | playSet =>
      rw [Instruction.event?, Instruction.event?, register, operand, operand']
      exact .some (.play residue)
    | _ => simp [found, Instruction.usesRegister] at uses

/-- What the same configuration is in both ways of arithmetic. -/
def configOf (limit : Nat) (arithmetic : Arithmetic) : TrackConfig :=
  { maxInstructions := limit, arithmetic }

/-- The step of a run: a frame without a comparison keeps the states congruent, and is spent on the
same instructions. -/
theorem Congruent.dispatch (congruent : Congruent masked raw)
    (uncompared : Uncompared (masked.executed (configOf limit .wrapping) fetch) ∨
      Uncompared (raw.executed (configOf limit .unmasked) fetch)) :
    Congruent (masked.dispatch (configOf limit .wrapping) fetch).1
        (raw.dispatch (configOf limit .unmasked) fetch).1 ∧
      List.Forall₂ Congruent (masked.fetching (configOf limit .wrapping) fetch)
        (raw.fetching (configOf limit .unmasked) fetch) := by
  have sameHalted := congruent.halted_eq
  have sameTick := congruent.agree tickCounter fun _ => rfl
  have sameWait := congruent.agree waitCounter fun _ => rfl
  by_cases halted : masked.halted = true
  · have halted' : raw.halted = true := sameHalted ▸ halted
    rw [(dispatch_of_halted _ fetch halted).1, (dispatch_of_halted _ fetch halted').1]
    exact ⟨congruent, by simp [fetching, halted, halted']⟩
  have running : masked.halted = false := by simpa using halted
  have running' : raw.halted = false := sameHalted ▸ running
  by_cases counting : 0 < masked.tickCounter
  · have counting' : 0 < raw.tickCounter := sameTick ▸ counting
    rw [(dispatch_of_counting _ fetch running counting).1,
      (dispatch_of_counting _ fetch running' counting').1]
    have same := congruent.agree (fun state =>
      ({ state with tickCounter := state.tickCounter - 1 } : TrackState).unregistered) fun _ => rfl
    exact ⟨⟨same, congruent.byte, congruent.residue⟩, by simp [fetching, counting, counting']⟩
  have counted' : ¬0 < raw.tickCounter := sameTick ▸ counting
  by_cases pausing : 0 < masked.waitCounter
  · have pausing' : 0 < raw.waitCounter := sameWait ▸ pausing
    rw [(dispatch_of_pausing _ fetch running counting pausing).1,
      (dispatch_of_pausing _ fetch running' counted' pausing').1]
    have same := congruent.agree (fun state =>
      ({ state.ready with waitCounter := state.waitCounter - 1 } : TrackState).unregistered)
      fun _ => rfl
    exact ⟨⟨same, congruent.byte, congruent.residue⟩, by simp [fetching, pausing, pausing']⟩
  have resumed' : ¬0 < raw.waitCounter := sameWait ▸ pausing
  obtain ⟨state, executed⟩ :=
    dispatch_of_ready (configOf limit .wrapping) fetch running counting pausing
  obtain ⟨state', executed'⟩ :=
    dispatch_of_ready (configOf limit .unmasked) fetch running' counted' resumed'
  rw [executed, executed'] at uncompared
  -- a frame that runs a phase: the counters are the same, so the phases are as long
  obtain ⟨length, states⟩ := congruent.ready.phase limit uncompared
  rw [state, state', fetching, fetching, if_neg (by simp [running, counting, pausing]),
    if_neg (by simp [running', counted', resumed'])]
  simp only [configOf, length]
  refine ⟨states _ (Nat.le_refl _), ?_⟩
  rw [List.forall₂_map_left_iff, List.forall₂_map_right_iff, List.forall₂_same]
  exact fun count member => states count (Nat.le_of_lt (List.mem_range.mp member))

theorem Congruent.executed_eq (fetched : List.Forall₂ Congruent
      (masked.fetching (configOf limit .wrapping) fetch)
      (raw.fetching (configOf limit .unmasked) fetch)) :
    masked.executed (configOf limit .wrapping) fetch =
      raw.executed (configOf limit .unmasked) fetch := by
  rw [executed_eq_map_fetching, executed_eq_map_fetching, ← List.forall₂_eq_eq_eq,
    List.forall₂_map_left_iff, List.forall₂_map_right_iff]
  exact fetched.imp fun _ _ congruent => congrArg fetch congruent.cursor_eq

theorem Congruent.requests (congruent : Congruent masked raw) (fetched : List.Forall₂ Congruent
      (masked.fetching (configOf limit .wrapping) fetch)
      (raw.fetching (configOf limit .unmasked) fetch)) :
    List.Forall₂ Request.Counterpart (masked.requests fetch (configOf limit .wrapping))
      (raw.requests fetch (configOf limit .unmasked)) := by
  rw [TrackState.requests, TrackState.requests, ← congruent.halted_eq]
  split
  · exact .cons .report .nil
  · exact List.rel_filterMap (fun _ _ congruent => congruent.request) fetched

end Frames

end TrackState

/-! ## Tracks -/

namespace Track

/-- What the track asks for in the frame with that number, counted from zero. -/
def requestsAt (track : Track) (code : Bytecode) (frame : Nat) : List Request :=
  (track.after code frame).state.requests (track.fetch code) track.config

theorem map_event_requestsAt (track : Track) (code : Bytecode) (frame : Nat) :
    (track.requestsAt code frame).map Request.event = track.eventsAt code frame := by
  rw [requestsAt, TrackState.map_event_requests, eventsAt_eq]

/-- A new track with one of the two ways of arithmetic. -/
def inMode (base : UInt16) (limit : Nat) (arithmetic : Arithmetic) : Track :=
  { base, config := TrackState.configOf limit arithmetic }

/-- Before any comparison is executed, a track that keeps its register to a byte and one that does
not are in congruent states after every frame.  In a frame they execute the same instructions and
ask for the same, but for what is taken from a register below zero. -/
theorem congruent_until_comparison (code : Bytecode) (base : UInt16) (limit frames : Nat)
    (uncompared : ∀ frame < frames,
      TrackState.Uncompared ((inMode base limit .wrapping).executedAt code frame) ∨
        TrackState.Uncompared ((inMode base limit .unmasked).executedAt code frame)) :
    TrackState.Congruent ((inMode base limit .wrapping).after code frames).state
        ((inMode base limit .unmasked).after code frames).state ∧
      ∀ frame < frames,
        (inMode base limit .wrapping).executedAt code frame =
            (inMode base limit .unmasked).executedAt code frame ∧
          List.Forall₂ Request.Counterpart ((inMode base limit .wrapping).requestsAt code frame)
            ((inMode base limit .unmasked).requestsAt code frame) ∧
          ∀ arithmetic, ((inMode base limit arithmetic).requestsAt code frame).map Request.event =
            (inMode base limit arithmetic).eventsAt code frame := by
  induction frames with
  | zero =>
    exact ⟨.start, fun frame none => absurd none (Nat.not_lt_zero _)⟩
  | succ frames ih =>
    obtain ⟨congruent, earlier⟩ := ih fun frame before => uncompared frame (by omega)
    have blind := uncompared frames (Nat.lt_succ_self _)
    unfold executedAt at blind
    obtain ⟨dispatched, fetched⟩ := congruent.dispatch blind
    refine ⟨?_, fun frame before => ?_⟩
    · rw [state_after_succ, state_after_succ]
      exact dispatched
    · obtain before | rfl := Nat.lt_succ_iff_lt_or_eq.mp before
      · exact earlier frame before
      · exact ⟨TrackState.Congruent.executed_eq fetched, congruent.requests fetched,
          fun arithmetic => map_event_requestsAt _ _ _⟩

/-- A program that plays its register above zero and below. -/
def belowZero : Bytecode :=
  #[0xF5, 2, 0xE6, 0xF3, 5, 0xE6, 0xFF]

theorem congruent_belowZero :
    (∀ frame < 2,
      TrackState.Uncompared ((inMode 0 8 .wrapping).executedAt belowZero frame) ∨
        TrackState.Uncompared ((inMode 0 8 .unmasked).executedAt belowZero frame)) ∧
      (inMode 0 8 .wrapping).requestsAt belowZero 1 = [⟨some (.playSet, 253), .play 253⟩] ∧
      (inMode 0 8 .unmasked).requestsAt belowZero 1 = [⟨some (.playSet, -3), .play 3⟩] ∧
      List.Forall₂ Request.Counterpart ((inMode 0 8 .wrapping).requestsAt belowZero 1)
        ((inMode 0 8 .unmasked).requestsAt belowZero 1) := by
  have uncompared : ∀ frame < 2,
      TrackState.Uncompared ((inMode 0 8 .wrapping).executedAt belowZero frame) ∨
        TrackState.Uncompared ((inMode 0 8 .unmasked).executedAt belowZero frame) := by
    unfold TrackState.Uncompared
    decide
  refine ⟨uncompared, by decide, by decide, ?_⟩
  exact ((congruent_until_comparison belowZero 0 8 2 uncompared).2 1 (by decide)).2.1

end Track

end Sequencer
