import Mathlib.Data.List.Basic
import Sequencer.Proofs.Track.Program

/-!
# Routines that are moved

A routine may lie further behind in a buffer if the targets of its jumps are moved by
the same distance.  A track then does the same as before, unless it comes upon the high
byte of a target, which is what gives the distance away.

* `TrackState.Moved` — two states that agree but for the distance, and for the anchor,
  which only repeats look at.
* `StandsAlone`, `HighKept` — high bytes that do no harm.
* `Routine.Relocated` — two fetch functions read a routine and the moved one.
* `Routine.Shared` — where both fetch the same.  `Routine.Shared.next` is the step,
  `Routine.Shared.phase` the run of a phase.
* `Routine.Together` — the invariant over frames.
* `Routine.events_of_zeros` — what is played behind so many zeros.
-/

namespace Sequencer

/-! ## Instructions and states -/

namespace Instruction

/-- The instruction with its target moved on. -/
def relocate (distance : Nat) : Instruction → Instruction
  | jump condition target => jump condition (target + UInt16.ofNat distance)
  | instruction => instruction

variable {distance : Nat} {instruction : Instruction}

@[simp] theorem endsTick_relocate : (instruction.relocate distance).endsTick = instruction.endsTick := by
  cases instruction <;> rfl

@[simp] theorem size_relocate : (instruction.relocate distance).size = instruction.size := by
  cases instruction <;> rfl

theorem relocate_of_single (single : instruction.size = 1) :
    instruction.relocate distance = instruction := by
  cases instruction with
  | jump condition target => cases single
  | _ => rfl

theorem Canonical.relocate (canonical : instruction.Canonical) :
    (instruction.relocate distance).Canonical := by
  cases instruction <;> exact canonical

end Instruction

@[simp] theorem length_bytesOf_relocate (distance : Nat) (instructions : List Instruction) :
    (bytesOf (instructions.map (·.relocate distance))).length = (bytesOf instructions).length := by
  simp [bytesOf, List.length_flatMap, Function.comp_def]

/-- Moved instructions start where they did. -/
theorem Starts.relocate {instructions : List Instruction} {offset : Nat} {instruction : Instruction}
    (starts : Starts instructions offset instruction) (distance : Nat) :
    Starts (instructions.map (·.relocate distance)) offset (instruction.relocate distance) := by
  obtain ⟨before, after, rfl, rfl⟩ := starts
  exact ⟨before.map (·.relocate distance), after.map (·.relocate distance), by simp,
    (length_bytesOf_relocate distance before).symm⟩

namespace TrackState

/-- Whether the second state is the first with its cursor moved on, and any anchor. -/
def Moved (distance : Nat) (first second : TrackState) : Prop :=
  ∃ anchor, second =
    { first with cursor := first.cursor + UInt16.ofNat distance, sectionAnchor := anchor }

variable {distance : Nat} {first second : TrackState}

theorem Moved.counters (moved : Moved distance first second) :
    second.halted = first.halted ∧ second.tickCounter = first.tickCounter ∧
      second.waitCounter = first.waitCounter := by
  obtain ⟨anchor, rfl⟩ := moved
  exact ⟨rfl, rfl, rfl⟩

theorem Moved.ready (moved : Moved distance first second) :
    Moved distance first.ready second.ready := by
  obtain ⟨anchor, rfl⟩ := moved
  exact ⟨anchor, rfl⟩

/-- The two states do the same with an instruction and the moved one. -/
theorem Moved.execute (moved : Moved distance first second) (arithmetic : Arithmetic)
    {instruction : Instruction} (forward : instruction.Forward) :
    Moved distance (first.execute arithmetic instruction).1
        (second.execute arithmetic (instruction.relocate distance)).1 ∧
      (second.execute arithmetic (instruction.relocate distance)).2 =
        (first.execute arithmetic instruction).2 := by
  obtain ⟨anchor, rfl⟩ := moved
  have further : ∀ bytes : UInt16, first.cursor + UInt16.ofNat distance + bytes =
      first.cursor + bytes + UInt16.ofNat distance := by
    intro bytes
    rw [UInt16.add_assoc, UInt16.add_comm (UInt16.ofNat distance), ← UInt16.add_assoc]
  cases instruction with
  | jump condition target =>
    refine ⟨⟨anchor, ?_⟩, rfl⟩
    by_cases taken : condition.holds first.flag <;>
      simp [TrackState.execute, Instruction.relocate, branch, advance, taken, further]
  | repeatSection condition => exact forward.elim
  | markSection =>
    refine ⟨⟨first.cursor + UInt16.ofNat distance, ?_⟩, rfl⟩
    simp [TrackState.execute, Instruction.relocate, advance, further]
  | _ =>
    refine ⟨⟨anchor, ?_⟩, rfl⟩
    simp [TrackState.execute, Instruction.relocate, advance, select, sound, further, registerByte]

end TrackState

/-! ## High bytes -/

/-- Whether the byte is an instruction by itself, and goes on to what lies behind it. -/
def StandsAlone (b : UInt8) : Prop :=
  ∀ opcode, Opcode.ofByte? b = some opcode →
    opcode.width = .none ∧ ∀ condition, opcode ≠ .repeatSection condition

section Decode

variable {code other : Bytecode} {offset offset' : Nat}

theorem StandsAlone.decode (alone : StandsAlone (code.byteAt offset)) :
    (code.decode offset).size = 1 ∧ (code.decode offset).Forward := by
  unfold Bytecode.decode
  split
  next opcode found =>
    obtain ⟨width, forward⟩ := alone opcode found
    refine ⟨by rw [Instruction.size_ofOpcode, Opcode.size, width]; rfl, ?_⟩
    cases opcode with
    | repeatSection condition => exact absurd rfl (forward condition)
    | _ => trivial
  next => exact ⟨rfl, trivial⟩

/-- What lies behind such a byte does not matter to it. -/
theorem StandsAlone.decode_eq (alone : StandsAlone (code.byteAt offset))
    (same : other.byteAt offset' = code.byteAt offset) :
    other.decode offset' = code.decode offset := by
  unfold Bytecode.decode
  rw [same]
  split
  next opcode found =>
    obtain ⟨width, -⟩ := alone opcode found
    exact Instruction.ofOpcode_congr (by simp [width]) (by simp [width])
  next => rfl

end Decode

/-- Whether the high byte of the target stays the same over the distance, and stands alone. -/
structure HighKept (distance : Nat) (target : UInt16) : Prop where
  same : (target.toNat + distance) / 256 = target.toNat / 256
  alone : StandsAlone (UInt8.ofNat (target.toNat / 256))

/-- Whether a jump that is left out next has a target whose high byte is kept. -/
def TrackState.SkipsSafely (distance : Nat) (instructions : List Instruction) (state : TrackState) :
    Prop :=
  ∀ condition target, Starts instructions state.cursor.toNat (.jump condition target) →
    condition.holds state.flag = false → HighKept distance target

/-- Nothing can go wrong below 256, where all high bytes are zero. -/
theorem highKept_of_lt {distance : Nat} {target : UInt16} (low : target.toNat + distance < 256) :
    HighKept distance target := by
  have zero : target.toNat / 256 = 0 := Nat.div_eq_of_lt (by omega)
  refine ⟨by omega, ?_⟩
  rw [zero]
  intro opcode found
  obtain rfl : opcode = .nop := (Option.some.inj (found.symm.trans (Opcode.ofByte?_byte .nop)))
  exact ⟨rfl, fun condition impossible => nomatch impossible⟩

/-! ## Two tracks -/

namespace Routine

/-- Whether both fetch functions read the same there, which is a single byte that goes on. -/
structure Harmless (distance : Nat) (fetch far : UInt16 → Instruction) (cursor : UInt16) : Prop where
  single : (fetch cursor).size = 1
  forward : (fetch cursor).Forward
  same : far (cursor + UInt16.ofNat distance) = fetch cursor

/-- One fetch function reads the routine, and the other the moved one. -/
structure Relocated (routine : Routine) (distance : Nat) (fetch far : UInt16 → Instruction) :
    Prop where
  start : ∀ cursor instruction, Starts routine.instructions cursor.toNat instruction →
    fetch cursor = instruction ∧ far (cursor + UInt16.ofNat distance) = instruction.relocate distance
  high : ∀ cursor offset condition target, cursor.toNat = offset + 2 →
    Starts routine.instructions offset (.jump condition target) → HighKept distance target →
    Harmless distance fetch far cursor
  behind : ∀ cursor, cursor.toNat = routine.size →
    fetch cursor = .nop ∧ far (cursor + UInt16.ofNat distance) = .nop
  forward : ∀ instruction ∈ routine.body, instruction.Forward

/-- Where both tracks fetch the same: on an instruction, on a harmless high byte, or right behind
the last `halt`, which has stopped them. -/
inductive Shared (routine : Routine) (distance : Nat) (fetch far : UInt16 → Instruction)
    (state : TrackState) : Prop where
  | start {instruction : Instruction}
      (starts : Starts routine.instructions state.cursor.toNat instruction)
  | high {offset : Nat} {condition : Condition} {target : UInt16}
      (starts : Starts routine.instructions offset (.jump condition target))
      (place : state.cursor.toNat = offset + 2) (harmless : Harmless distance fetch far state.cursor)
  | behind (place : state.cursor.toNat = routine.size) (halted : state.halted = true)

variable {routine : Routine} {distance : Nat} {fetch far : UInt16 → Instruction}
  {state other : TrackState}

theorem Relocated.forward_of_starts (relocated : routine.Relocated distance fetch far) {offset : Nat}
    {instruction : Instruction} (starts : Starts routine.instructions offset instruction) :
    instruction.Forward := by
  obtain inBody | rfl := mem_of_starts starts
  · exact relocated.forward instruction inBody
  · trivial

theorem Shared.reads (shared : routine.Shared distance fetch far state)
    (relocated : routine.Relocated distance fetch far) :
    far (state.cursor + UInt16.ofNat distance) = (fetch state.cursor).relocate distance ∧
      (fetch state.cursor).Forward := by
  cases shared with
  | start starts =>
    obtain ⟨near, away⟩ := relocated.start _ _ starts
    rw [near, away]
    exact ⟨rfl, relocated.forward_of_starts starts⟩
  | high starts place harmless =>
    rw [harmless.same, Instruction.relocate_of_single harmless.single]
    exact ⟨rfl, harmless.forward⟩
  | behind place halted =>
    obtain ⟨near, away⟩ := relocated.behind _ place
    rw [near, away]
    exact ⟨rfl, trivial⟩

/-- The step: both do the same, and fetch the same again, unless the zero behind the routine has
ended the phase. -/
theorem Shared.next (shared : routine.Shared distance fetch far state)
    (relocated : routine.Relocated distance fetch far) (arithmetic : Arithmetic)
    (skips : state.SkipsSafely distance routine.instructions) :
    routine.Shared distance fetch far (state.next arithmetic fetch) ∨
      (fetch state.cursor).endsTick = true ∧ (state.next arithmetic fetch).halted = true := by
  rw [TrackState.next]
  cases shared with
  | @start instruction starts =>
    -- a jump that is left out is the one way to a high byte
    have fetched := (relocated.start _ _ starts).1
    obtain ⟨next, reached⟩ | ⟨condition, target, isJump, notTaken, place⟩ | ⟨isHalt, ended⟩ :=
      cursor_execute_of_starts arithmetic starts (.inl (relocated.forward_of_starts starts))
    · rw [fetched]
      exact .inl (.start reached)
    · subst isJump
      rw [fetched]
      exact .inl (.high starts place (relocated.high _ _ _ _ place starts (skips _ _ starts notTaken)))
    · rw [fetched]
      refine .inl (.behind ended ?_)
      rw [TrackState.halted_execute, isHalt]
      simp
  | high starts place harmless =>
    obtain ⟨next, reached⟩ :=
      starts_execute_of_high arithmetic starts place harmless.single harmless.forward
    exact .inl (.start reached)
  | behind place halted =>
    rw [(relocated.behind _ place).1]
    exact .inr ⟨rfl, by rw [TrackState.halted_execute, halted, Bool.true_or]⟩

theorem Shared.moved_next (shared : routine.Shared distance fetch far state)
    (relocated : routine.Relocated distance fetch far) (arithmetic : Arithmetic)
    (moved : TrackState.Moved distance state other) :
    (far other.cursor).endsTick = (fetch state.cursor).endsTick ∧
      (other.execute arithmetic (far other.cursor)).2 =
        (state.execute arithmetic (fetch state.cursor)).2 ∧
      TrackState.Moved distance (state.next arithmetic fetch) (other.next arithmetic far) := by
  obtain ⟨same, forward⟩ := shared.reads relocated
  have cursor : other.cursor = state.cursor + UInt16.ofNat distance := by
    obtain ⟨anchor, rfl⟩ := moved
    rfl
  obtain ⟨moved', events⟩ := moved.execute arithmetic forward
  rw [TrackState.next, TrackState.next, cursor, same]
  exact ⟨Instruction.endsTick_relocate, events, moved'⟩

/-- The run: both phases have the same length and raise the same events. -/
theorem Shared.phase (shared : routine.Shared distance fetch far state)
    (relocated : routine.Relocated distance fetch far) (arithmetic : Arithmetic) {limit length : Nat}
    (moved : TrackState.Moved distance state other)
    (lasts : state.phaseLength arithmetic fetch limit = length)
    (skips : ∀ count < length,
      ((TrackState.next arithmetic fetch)^[count] state).SkipsSafely distance
        routine.instructions) :
    other.phaseLength arithmetic far limit = length ∧
      other.heard arithmetic far length = state.heard arithmetic fetch length ∧
      TrackState.Moved distance ((TrackState.next arithmetic fetch)^[length] state)
        ((TrackState.next arithmetic far)^[length] other) ∧
      (routine.Shared distance fetch far ((TrackState.next arithmetic fetch)^[length] state) ∨
        ((TrackState.next arithmetic fetch)^[length] state).halted = true) := by
  -- on the instructions left; only the last of them can lead away from what both share
  induction limit generalizing state other length with
  | zero =>
    subst lasts
    exact ⟨rfl, rfl, moved, .inl shared⟩
  | succ limit ih =>
    obtain ⟨sameEnd, event, moved'⟩ := shared.moved_next relocated arithmetic moved
    by_cases ends : (fetch state.cursor).endsTick = true
    · rw [TrackState.phaseLength, if_pos ends] at lasts
      subst lasts
      have next := shared.next relocated arithmetic (skips 0 Nat.one_pos)
      refine ⟨?_, ?_, moved', next.imp_right And.right⟩
      · rw [TrackState.phaseLength, sameEnd, if_pos ends]
      · simp only [TrackState.heard, event]
    · rw [TrackState.phaseLength, if_neg ends] at lasts
      subst lasts
      have next := shared.next relocated arithmetic (skips 0 (Nat.succ_pos _))
      have kept := next.resolve_right fun left => ends left.1
      obtain ⟨length, heard, last, left⟩ := ih kept moved' rfl fun count within =>
        skips (count + 1) (Nat.succ_lt_succ within)
      refine ⟨?_, ?_, last, left⟩
      · rw [TrackState.phaseLength, sameEnd, if_neg ends, length]
      · rw [TrackState.heard, TrackState.heard, event, heard]

/-- The states agree but for the distance, and both tracks fetch the same unless they have been
stopped. -/
structure Together (routine : Routine) (distance : Nat) (fetch far : UInt16 → Instruction)
    (state other : TrackState) : Prop where
  moved : TrackState.Moved distance state other
  shared : routine.Shared distance fetch far state ∨ state.halted = true

/-- Only the cursor and the halt flag matter to what both share. -/
theorem Shared.congr (shared : routine.Shared distance fetch far state) {next : TrackState}
    (cursor : next.cursor = state.cursor) (halted : next.halted = state.halted) :
    routine.Shared distance fetch far next := by
  cases shared with
  | start starts => exact .start (cursor ▸ starts)
  | high starts place harmless => exact .high starts (cursor ▸ place) (cursor ▸ harmless)
  | behind place stopped => exact .behind (cursor ▸ place) (halted.trans stopped)

/-- In a frame that goes over harmless high bytes only, both raise the same events. -/
theorem Together.dispatch (together : routine.Together distance fetch far state other)
    (relocated : routine.Relocated distance fetch far) (config : TrackConfig)
    (skips : ∀ state' ∈ state.fetching config fetch,
      state'.SkipsSafely distance routine.instructions) :
    (other.dispatch config far).2 = (state.dispatch config fetch).2 ∧
      routine.Together distance fetch far (state.dispatch config fetch).1
        (other.dispatch config far).1 := by
  obtain ⟨moved, shared⟩ := together
  obtain ⟨sameHalt, sameTick, sameWait⟩ := moved.counters
  by_cases halted : state.halted = true
  · rw [(TrackState.dispatch_of_halted config fetch halted).1,
      (TrackState.dispatch_of_halted config far (sameHalt.trans halted)).1]
    exact ⟨rfl, moved, .inr halted⟩
  have running : state.halted = false := by simpa using halted
  have shared := shared.resolve_right halted
  by_cases counting : 0 < state.tickCounter
  · rw [(TrackState.dispatch_of_counting config fetch running counting).1,
      (TrackState.dispatch_of_counting config far (sameHalt.trans running) (sameTick ▸ counting)).1]
    obtain ⟨anchor, rfl⟩ := moved
    exact ⟨rfl, ⟨anchor, rfl⟩, .inl (shared.congr rfl rfl)⟩
  by_cases pausing : 0 < state.waitCounter
  · rw [(TrackState.dispatch_of_pausing config fetch running counting pausing).1,
      (TrackState.dispatch_of_pausing config far (sameHalt.trans running) (sameTick ▸ counting)
        (sameWait ▸ pausing)).1]
    obtain ⟨anchor, rfl⟩ := moved
    exact ⟨rfl, ⟨anchor, rfl⟩, .inl (shared.congr rfl rfl)⟩
  · have skips' : ∀ count < state.ready.phaseLength config.arithmetic fetch config.maxInstructions,
        ((TrackState.next config.arithmetic fetch)^[count] state.ready).SkipsSafely distance
          routine.instructions :=
      fun count within => skips _ <|
        (TrackState.mem_fetching_of_ready config fetch running counting pausing).mpr
          ⟨count, within, rfl⟩
    have shared' : routine.Shared distance fetch far state.ready := shared.congr rfl rfl
    obtain ⟨length, heard, last, left⟩ :=
      shared'.phase relocated config.arithmetic moved.ready rfl skips'
    rw [(TrackState.dispatch_of_ready config fetch running counting pausing).1,
      (TrackState.dispatch_of_ready config far (sameHalt.trans running) (sameTick ▸ counting)
        (sameWait ▸ pausing)).1, length]
    exact ⟨heard, last, left⟩

/-- The run over frames: as long as the first track goes over harmless high bytes only, the second
one raises the same events. -/
theorem Together.after {first second : Track} {code code' : Bytecode}
    (together : routine.Together distance (first.fetch code) (second.fetch code')
      first.state second.state)
    (relocated : routine.Relocated distance (first.fetch code) (second.fetch code'))
    (config : first.config = second.config) {frames : Nat}
    (skips : ∀ frame < frames, ∀ state ∈ first.fetchingAt code frame,
      state.SkipsSafely distance routine.instructions) :
    (∀ frame < frames, second.eventsAt code' frame = first.eventsAt code frame) ∧
      routine.Together distance (first.fetch code) (second.fetch code')
        (first.after code frames).state (second.after code' frames).state := by
  induction frames with
  | zero => exact ⟨fun frame impossible => absurd impossible (Nat.not_lt_zero _), together⟩
  | succ frames ih =>
    obtain ⟨earlier, last⟩ := ih fun frame lt => skips frame (by omega)
    obtain ⟨events, next⟩ := last.dispatch relocated first.config (skips frames (by omega))
    rw [Track.state_after_succ, Track.state_after_succ, ← config]
    refine ⟨?_, next⟩
    intro frame lt
    obtain before | rfl : frame < frames ∨ frame = frames := by omega
    · exact earlier frame before
    · rw [Track.eventsAt_eq, Track.eventsAt_eq, ← config, events]

/-! ## Buffers -/

/-- A routine at the front of one buffer, and the moved one behind other bytes in another. -/
theorem relocated_decode (routine : Routine) {code code' : Bytecode} {before : List UInt8}
    {distance : Nat} (layout : code.toList = bytesOf routine.instructions)
    (layout' : code'.toList = before ++ bytesOf (routine.instructions.map (·.relocate distance)))
    (start : before.length = distance) (reachable : distance + routine.size < 65536)
    (forward : ∀ instruction ∈ routine.body, instruction.Forward) :
    routine.Relocated distance (fun cursor => code.decode (0 + cursor.toNat))
      (fun cursor => code'.decode (0 + cursor.toNat)) := by
  subst start
  have here : code.toList = [] ++ (bytesOf routine.instructions ++ []) := by simp [layout]
  have there : code'.toList =
      before ++ (bytesOf (routine.instructions.map (·.relocate before.length)) ++ []) := by
    simp [layout']
  have further : ∀ cursor : UInt16, cursor.toNat ≤ routine.size →
      (cursor + UInt16.ofNat before.length).toNat = before.length + cursor.toNat := by
    intro cursor le
    rw [UInt16.toNat_add, UInt16.toNat_ofNat']
    omega
  have size : routine.size = code.size := size_eq layout.symm
  have size' : code'.size = before.length + routine.size := by
    rw [Routine.size, ← length_bytesOf_relocate before.length, ← List.length_append, ← layout',
      Array.length_toList]
  constructor
  · intro cursor instruction starts
    have canonical := canonical_of_starts starts
    have le := end_le_size starts
    refine ⟨by simpa using decode_of_starts here canonical starts, ?_⟩
    rw [further cursor (by omega), Nat.zero_add]
    exact decode_of_starts there canonical.relocate (starts.relocate _)
  · intro cursor offset condition target place starts kept
    have le : offset + 3 ≤ routine.size := end_le_size starts
    -- the target lies in the routine, so moving it does not make it wrap around
    obtain ⟨first, reached⟩ := targets_of_starts starts
    have low := (Inside.start reached).lt_size
    have near : code.byteAt cursor.toNat = UInt8.ofNat (target.toNat / 256) := by
      rw [place]
      simpa using byteAt_of_starts_jump here starts
    have away : code'.byteAt (before.length + cursor.toNat) = UInt8.ofNat (target.toNat / 256) := by
      rw [place, byteAt_of_starts_jump there (starts.relocate _), further target (Nat.le_of_lt low),
        Nat.add_comm before.length, kept.same]
    have alone : StandsAlone (code.byteAt cursor.toNat) := near ▸ kept.alone
    rw [← Nat.zero_add cursor.toNat] at alone near
    refine ⟨alone.decode.1, alone.decode.2, ?_⟩
    rw [further cursor (by omega), Nat.zero_add]
    exact alone.decode_eq (away.trans near.symm)
  · intro cursor place
    rw [further cursor (by omega)]
    exact ⟨Bytecode.decode_of_size_le (by omega), Bytecode.decode_of_size_le (by omega)⟩
  · exact forward

end Routine

/-! ## Padding -/

/-- A fresh track that fetches a `nop` does nothing but go on. -/
theorem TrackState.dispatch_of_nop {fetch : UInt16 → Instruction} {cursor : UInt16}
    (fetched : fetch cursor = .nop) :
    ({ cursor } : TrackState).dispatch {} fetch = ({ cursor := cursor + 1 }, []) := by
  have phase : ({ cursor } : TrackState).runPhase .wrapping fetch (254 + 1) [] =
      ({ cursor := cursor + 1 }, []) := by
    rw [TrackState.runPhase, fetched]
    rfl
  have still : ¬(0 : UInt16) < 0 := by decide
  simp only [TrackState.dispatch, TrackState.clearPulses, still, if_false, Bool.false_eq_true]
  rw [phase]
  rfl

section Padding

variable {code code' : Bytecode} {count : Nat}

/-- Zeros at the front of a buffer are gone over one by one. -/
theorem after_of_zeros {rest : List UInt8} (layout : code.toList = List.replicate count 0 ++ rest)
    (reachable : count < 65536) {frame : Nat} (le : frame ≤ count) :
    (({} : Track).after code frame).state = { cursor := UInt16.ofNat frame } ∧
      ∀ earlier < frame, ({} : Track).eventsAt code earlier = [] := by
  have zeros : ∀ cursor : UInt16, cursor.toNat < count → ({} : Track).fetch code cursor = .nop := by
    intro cursor lt
    apply Bytecode.decode_of_zero
    rw [Bytecode.byteAt_eq_getElem?, layout, List.getElem?_append_left (by simpa using lt)]
    simp [lt]
  induction frame with
  | zero => exact ⟨rfl, fun earlier impossible => absurd impossible (Nat.not_lt_zero _)⟩
  | succ frame ih =>
    obtain ⟨state, silent⟩ := ih (Nat.le_of_succ_le le)
    have within : (UInt16.ofNat frame).toNat < count := by
      rw [UInt16.toNat_ofNat']
      omega
    have dispatched := TrackState.dispatch_of_nop (zeros _ within)
    refine ⟨?_, ?_⟩
    · rw [Track.state_after_succ, state, dispatched, UInt16.ofNat_add]
      rfl
    · intro earlier lt
      obtain before | rfl : earlier < frame ∨ earlier = frame := by omega
      · exact silent earlier before
      · rw [Track.eventsAt_eq, state, dispatched]

/-- What is played behind the zeros. -/
theorem run_of_zeros {rest : List UInt8} (layout : code.toList = List.replicate count 0 ++ rest)
    (reachable : count < 65536) (frames : Nat) :
    (({} : Track).run code (List.replicate (frames + count) .dispatch)).2 =
      (List.range frames).flatMap
        ((⟨0, {}, { cursor := UInt16.ofNat count }⟩ : Track).eventsAt code) := by
  obtain ⟨state, silent⟩ := after_of_zeros layout reachable (Nat.le_refl count)
  have nothing : (List.range count).flatMap (({} : Track).eventsAt code) = [] :=
    List.flatMap_eq_nil_iff.mpr fun frame member => silent frame (List.mem_range.mp member)
  have arrived : ({} : Track).after code count = ⟨0, {}, { cursor := UInt16.ofNat count }⟩ := by
    rw [Track.after_eq, state]
  have later : ∀ frame, ({} : Track).eventsAt code (count + frame) =
      (⟨0, {}, { cursor := UInt16.ofNat count }⟩ : Track).eventsAt code frame := by
    intro frame
    rw [Track.eventsAt_add, arrived]
  rw [Track.run_replicate_dispatch, Nat.add_comm, List.range_add, List.flatMap_append, nothing,
    List.nil_append, List.flatMap_map]
  exact congrArg (List.flatMap · _) (funext later)

/-- Behind as many zeros as it is moved by, a routine raises the same events as at the front of a
buffer, so many frames later. -/
theorem Routine.events_of_zeros (routine : Routine) (layout : code.toList = bytesOf routine.instructions)
    (layout' : code'.toList = List.replicate count 0 ++
      bytesOf (routine.instructions.map (·.relocate count)))
    (reachable : count + routine.size < 65536)
    (forward : ∀ instruction ∈ routine.body, instruction.Forward) {frames : Nat}
    (skips : ∀ frame < frames, ∀ state ∈ ({} : Track).fetchingAt code frame,
      state.SkipsSafely count routine.instructions) :
    (({} : Track).run code' (List.replicate (frames + count) .dispatch)).2 =
      (({} : Track).run code (List.replicate frames .dispatch)).2 := by
  obtain ⟨first, starts⟩ := routine.starts_zero
  have relocated := routine.relocated_decode layout layout' List.length_replicate reachable forward
  have together : routine.Together count (({} : Track).fetch code)
      ((⟨0, {}, { cursor := UInt16.ofNat count }⟩ : Track).fetch code') {}
      { cursor := UInt16.ofNat count } :=
    ⟨⟨0, by simp⟩, .inl (.start starts)⟩
  obtain ⟨events, -⟩ := together.after relocated rfl skips
  rw [run_of_zeros layout' (by omega), Track.run_replicate_dispatch]
  apply List.flatMap_congr
  intro frame member
  exact events frame (List.mem_range.mp member)

end Padding

end Sequencer
