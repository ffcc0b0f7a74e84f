import Mathlib.Logic.Function.Iterate
import Sequencer.Track

/-!
# Tracks step by step

A host follows a track frame by frame.  Behind the frames stands one sequence of
instructions, each fetched where the one before it has left the cursor; a frame
executes the next few of them, or none.

* `TrackState.next`, `TrackState.trace`, `TrackState.heard` — that sequence from a
  state on, and the events it raises.
* `TrackState.dispatch_of_halted`, `_of_counting`, `_of_pausing`, `_of_ready` — the
  four things a frame can do.  Only the last one executes instructions, as many as
  `TrackState.phaseLength` says.
* `TrackState.untimed` — a state without its counters and pulses.  Which
  instructions follow, and what they raise, does not depend on those.
* `Track.after`, `Track.eventsAt`, `Track.executedAt`, `Track.fetchingAt` — the frames
  of a track that is left alone.
-/

namespace Sequencer

/-- A counter that is not down yet goes down by one. -/
theorem toNat_sub_one {count : UInt16} (positive : 0 < count) :
    (count - 1).toNat + 1 = count.toNat := by
  have positive : 0 < count.toNat := UInt16.lt_iff_toNat_lt.mp positive
  have one : (1 : UInt16) ≤ count := by
    rw [UInt16.le_iff_toNat_le, UInt16.toNat_one]
    omega
  rw [UInt16.toNat_sub_of_le _ _ one, UInt16.toNat_one]
  omega

theorem eq_zero_of_not_pos {count : UInt16} (down : ¬0 < count) : count = 0 := by
  simpa [UInt16.lt_iff_toNat_lt, ← UInt16.toNat_inj] using down

namespace TrackState

/-! ## What one instruction does to the cursor, the anchor and the halt flag -/

theorem cursor_execute (arithmetic : Arithmetic) (state : TrackState) (instruction : Instruction) :
    (state.execute arithmetic instruction).1.cursor =
      match instruction with
      | .jump condition target =>
        if condition.holds state.flag then target else state.cursor + 2
      | .repeatSection condition =>
        if condition.holds state.flag then state.sectionAnchor else state.cursor + 1
      | _ => state.cursor + UInt16.ofNat instruction.size := by
  cases instruction with
  | jump condition target | repeatSection condition =>
    simp only [execute, branch, advance]
    split <;> rfl
  | _ => rfl

theorem sectionAnchor_execute (arithmetic : Arithmetic) (state : TrackState)
    (instruction : Instruction) :
    (state.execute arithmetic instruction).1.sectionAnchor =
      if instruction = .markSection then state.cursor else state.sectionAnchor := by
  cases instruction with
  | jump condition target | repeatSection condition =>
    simp only [execute, branch, advance]
    split <;> rfl
  | _ => rfl

theorem halted_execute (arithmetic : Arithmetic) (state : TrackState) (instruction : Instruction) :
    (state.execute arithmetic instruction).1.halted =
      (state.halted || instruction == .halt) := by
  cases instruction with
  | jump condition target | repeatSection condition =>
    simp only [execute, branch, advance]
    split <;> simp
  | _ => simp [execute, advance, select, sound]

/-- Only a `halt` asks to halt. -/
theorem execute_eq_halt_iff {arithmetic : Arithmetic} {state : TrackState}
    {instruction : Instruction} :
    (state.execute arithmetic instruction).2 = some .halt ↔ instruction = .halt := by
  cases instruction <;> simp [execute, select, sound]

/-! ## One instruction after the other -/

section Sequence

variable (arithmetic : Arithmetic) (fetch : UInt16 → Instruction)

/-- The state after the instruction at the cursor. -/
def next (state : TrackState) : TrackState :=
  (state.execute arithmetic (fetch state.cursor)).1

/-- The first instructions from a state on. -/
def trace : Nat → TrackState → List Instruction
  | 0, _ => []
  | count + 1, state => fetch state.cursor :: trace count (state.next arithmetic fetch)

/-- The events that the first instructions from a state on raise. -/
def heard : Nat → TrackState → List Event
  | 0, _ => []
  | count + 1, state =>
    (state.execute arithmetic (fetch state.cursor)).2.toList ++
      heard count (state.next arithmetic fetch)

theorem trace_add (first second : Nat) (state : TrackState) :
    state.trace arithmetic fetch (first + second) =
      state.trace arithmetic fetch first ++
        ((next arithmetic fetch)^[first] state).trace arithmetic fetch second := by
  induction first generalizing state with
  | zero => simp [trace]
  | succ first ih => simp [Nat.succ_add, trace, ih, Function.iterate_succ_apply]

theorem trace_eq_map (count : Nat) (state : TrackState) :
    state.trace arithmetic fetch count =
      (List.range count).map fun passed => fetch ((next arithmetic fetch)^[passed] state).cursor := by
  induction count with
  | zero => rfl
  | succ count ih =>
    rw [trace_add, ih, List.range_succ, List.map_append]
    rfl

theorem heard_add (first second : Nat) (state : TrackState) :
    state.heard arithmetic fetch (first + second) =
      state.heard arithmetic fetch first ++
        ((next arithmetic fetch)^[first] state).heard arithmetic fetch second := by
  induction first generalizing state with
  | zero => simp [heard]
  | succ first ih => simp [Nat.succ_add, heard, ih, Function.iterate_succ_apply]

/-- A track is halted once a `halt` has been executed. -/
theorem halted_iterate_next (count : Nat) (state : TrackState) :
    ((next arithmetic fetch)^[count] state).halted =
      (state.halted || decide (Event.halt ∈ state.heard arithmetic fetch count)) := by
  induction count generalizing state with
  | zero => simp [heard]
  | succ count ih =>
    have raised : Event.halt ∈ (state.execute arithmetic (fetch state.cursor)).2.toList ↔
        fetch state.cursor = .halt := by
      rw [Option.mem_toList, execute_eq_halt_iff]
    rw [Function.iterate_succ_apply, ih, heard, next, halted_execute]
    simp [List.mem_append, raised, Bool.or_assoc, Bool.decide_or, beq_eq_decide]

/-- The number of instructions in a phase. -/
def phaseLength : Nat → TrackState → Nat
  | 0, _ => 0
  | limit + 1, state =>
    if (fetch state.cursor).endsTick then 1
    else phaseLength limit (state.next arithmetic fetch) + 1

theorem reverse_toList (event : Option Event) : event.toList.reverse = event.toList := by
  cases event <;> rfl

/-- A phase executes the next instructions, as many as its length says. -/
theorem runPhase_eq (limit : Nat) (state : TrackState) :
    state.runPhase arithmetic fetch limit [] =
      ((next arithmetic fetch)^[state.phaseLength arithmetic fetch limit] state,
        (state.heard arithmetic fetch (state.phaseLength arithmetic fetch limit)).reverse) := by
  induction limit generalizing state with
  | zero => rfl
  | succ limit ih =>
    simp only [runPhase, phaseLength]
    split
    · simp [heard, next, reverse_toList]
    · rw [runPhase_eq_append, ← next, ih]
      simp [heard, Function.iterate_succ_apply, reverse_toList]

end Sequence

/-! ## The four things a frame can do -/

/-- The state in which a phase starts. -/
def ready (state : TrackState) : TrackState :=
  { state.clearPulses with tickCounter := state.tickRate }

section Frame

variable (config : TrackConfig) (fetch : UInt16 → Instruction) {state : TrackState}

/-- The instructions that the next frame executes. -/
def executed (state : TrackState) : List Instruction :=
  if state.halted ∨ 0 < state.tickCounter ∨ 0 < state.waitCounter then []
  else state.ready.trace config.arithmetic fetch
    (state.ready.phaseLength config.arithmetic fetch config.maxInstructions)

/-- The states in which the next frame fetches them. -/
def fetching (state : TrackState) : List TrackState :=
  if state.halted ∨ 0 < state.tickCounter ∨ 0 < state.waitCounter then []
  else (List.range (state.ready.phaseLength config.arithmetic fetch config.maxInstructions)).map
    fun count => (next config.arithmetic fetch)^[count] state.ready

theorem executed_eq_map_fetching (state : TrackState) :
    state.executed config fetch = (state.fetching config fetch).map (fetch ·.cursor) := by
  unfold executed fetching
  split
  · rfl
  · rw [trace_eq_map, List.map_map]
    rfl

theorem dispatch_of_halted (halted : state.halted = true) :
    state.dispatch config fetch = (state, [.halt]) ∧ state.executed config fetch = [] := by
  simp [dispatch, executed, halted]

theorem dispatch_of_counting (running : state.halted = false) (counting : 0 < state.tickCounter) :
    state.dispatch config fetch = ({ state with tickCounter := state.tickCounter - 1 }, []) ∧
      state.executed config fetch = [] := by
  simp [dispatch, executed, running, counting]

theorem dispatch_of_pausing (running : state.halted = false) (counted : ¬0 < state.tickCounter)
    (pausing : 0 < state.waitCounter) :
    state.dispatch config fetch =
        ({ state.ready with waitCounter := state.waitCounter - 1 }, []) ∧
      state.executed config fetch = [] := by
  simp [dispatch, executed, running, counted, pausing, ready, clearPulses]

theorem dispatch_of_ready (running : state.halted = false) (counted : ¬0 < state.tickCounter)
    (resumed : ¬0 < state.waitCounter) :
    let count := state.ready.phaseLength config.arithmetic fetch config.maxInstructions
    state.dispatch config fetch =
        ((next config.arithmetic fetch)^[count] state.ready,
          state.ready.heard config.arithmetic fetch count) ∧
      state.executed config fetch = state.ready.trace config.arithmetic fetch count := by
  have still : ¬0 < state.ready.waitCounter := resumed
  rw [dispatch, executed]
  simp only [running, counted, resumed, ready, clearPulses, if_false, or_self] at still ⊢
  simp [runPhase_eq]

theorem dispatch_eq_runPhase (running : state.halted = false) (counted : ¬0 < state.tickCounter)
    (resumed : ¬0 < state.waitCounter) :
    state.dispatch config fetch =
      ((state.ready.runPhase config.arithmetic fetch config.maxInstructions []).1,
        (state.ready.runPhase config.arithmetic fetch config.maxInstructions []).2.reverse) := by
  rw [(dispatch_of_ready config fetch running counted resumed).1, runPhase_eq, List.reverse_reverse]

theorem mem_fetching_of_ready (running : state.halted = false) (counted : ¬0 < state.tickCounter)
    (resumed : ¬0 < state.waitCounter) {other : TrackState} :
    other ∈ state.fetching config fetch ↔
      ∃ count < state.ready.phaseLength config.arithmetic fetch config.maxInstructions,
        (next config.arithmetic fetch)^[count] state.ready = other := by
  rw [fetching, if_neg (by simp [running, counted, resumed])]
  simp only [List.mem_map, List.mem_range]

/-- A frame leaves a running track halted just if it reports a halt. -/
theorem halted_dispatch_iff (running : state.halted = false) :
    (state.dispatch config fetch).1.halted = true ↔
      Event.halt ∈ (state.dispatch config fetch).2 := by
  by_cases counting : 0 < state.tickCounter
  · simp [(dispatch_of_counting config fetch running counting).1, running]
  · by_cases pausing : 0 < state.waitCounter
    · simp [(dispatch_of_pausing config fetch running counting pausing).1, ready, clearPulses,
        running]
    · have still : state.ready.halted = false := running
      rw [(dispatch_of_ready config fetch running counting pausing).1, halted_iterate_next, still]
      simp

end Frame

/-! ## What does not depend on time -/

/-- The state without its counters and pulses. -/
def untimed (state : TrackState) : TrackState :=
  { state.clearPulses with tickCounter := 0, waitCounter := 0 }

@[simp] theorem cursor_untimed (state : TrackState) : state.untimed.cursor = state.cursor :=
  rfl

@[simp] theorem halted_untimed (state : TrackState) : state.untimed.halted = state.halted :=
  rfl

theorem execute_untimed (arithmetic : Arithmetic) (state : TrackState)
    (instruction : Instruction) :
    (state.untimed.execute arithmetic instruction).1.untimed =
        (state.execute arithmetic instruction).1.untimed ∧
      (state.untimed.execute arithmetic instruction).2 =
        (state.execute arithmetic instruction).2 := by
  cases instruction with
  | jump condition target | repeatSection condition =>
    by_cases taken : condition.holds state.flag <;>
      simp [execute, branch, advance, untimed, clearPulses, taken]
  | _ => exact ⟨rfl, rfl⟩

section Untimed

variable {arithmetic : Arithmetic} {fetch : UInt16 → Instruction} {state other : TrackState}

theorem execute_congr (same : state.untimed = other.untimed) (instruction : Instruction) :
    (state.execute arithmetic instruction).1.untimed =
        (other.execute arithmetic instruction).1.untimed ∧
      (state.execute arithmetic instruction).2 = (other.execute arithmetic instruction).2 := by
  obtain ⟨states, events⟩ := execute_untimed arithmetic state instruction
  obtain ⟨states', events'⟩ := execute_untimed arithmetic other instruction
  rw [← states, ← states', ← events, ← events', same]
  exact ⟨rfl, rfl⟩

theorem cursor_congr (same : state.untimed = other.untimed) : state.cursor = other.cursor := by
  simpa using congrArg cursor same

theorem halted_congr (same : state.untimed = other.untimed) : state.halted = other.halted := by
  simpa using congrArg halted same

theorem next_congr (same : state.untimed = other.untimed) :
    (state.next arithmetic fetch).untimed = (other.next arithmetic fetch).untimed := by
  rw [next, next, cursor_congr same]
  exact (execute_congr same _).1

theorem iterate_next_congr (same : state.untimed = other.untimed) (count : Nat) :
    ((next arithmetic fetch)^[count] state).untimed =
      ((next arithmetic fetch)^[count] other).untimed := by
  induction count generalizing state other with
  | zero => exact same
  | succ count ih => exact ih (next_congr same)

/-- The instructions that follow do not depend on counters and pulses. -/
theorem trace_congr (same : state.untimed = other.untimed) (count : Nat) :
    state.trace arithmetic fetch count = other.trace arithmetic fetch count := by
  induction count generalizing state other with
  | zero => rfl
  | succ count ih => rw [trace, trace, cursor_congr same, ih (next_congr same)]

/-- The events that follow do not depend on counters and pulses. -/
theorem heard_congr (same : state.untimed = other.untimed) (count : Nat) :
    state.heard arithmetic fetch count = other.heard arithmetic fetch count := by
  induction count generalizing state other with
  | zero => rfl
  | succ count ih =>
    rw [heard, heard, cursor_congr same, (execute_congr same _).2, ih (next_congr same)]

end Untimed

end TrackState

/-! ## Tracks that are left alone -/

namespace Track

/-- The track after a number of frames. -/
def after (track : Track) (code : Bytecode) (frames : Nat) : Track :=
  (fun track => (track.dispatch code).1)^[frames] track

/-- What the track asks for in the frame with that number, counted from zero. -/
def eventsAt (track : Track) (code : Bytecode) (frame : Nat) : List Event :=
  ((track.after code frame).dispatch code).2

/-- The instructions the track executes in the frame with that number. -/
def executedAt (track : Track) (code : Bytecode) (frame : Nat) : List Instruction :=
  (track.after code frame).state.executed track.config (track.fetch code)

/-- The states in which the track fetches them. -/
def fetchingAt (track : Track) (code : Bytecode) (frame : Nat) : List TrackState :=
  (track.after code frame).state.fetching track.config (track.fetch code)

variable (track : Track) (code : Bytecode)

theorem after_succ (frames : Nat) :
    track.after code (frames + 1) = ((track.after code frames).dispatch code).1 :=
  Function.iterate_succ_apply' _ _ _

theorem after_add (first second : Nat) :
    track.after code (first + second) = (track.after code first).after code second := by
  rw [after, after, after, Nat.add_comm, Function.iterate_add_apply]

/-- Only the state of a track changes. -/
theorem after_eq (frames : Nat) :
    track.after code frames = { track with state := (track.after code frames).state } := by
  induction frames with
  | zero => rfl
  | succ frames ih =>
    rw [after_succ, ih]
    rfl

/-- A frame is one of the track's state. -/
theorem dispatch_after (frame : Nat) :
    (track.after code frame).dispatch code =
      ({ track with
          state := ((track.after code frame).state.dispatch track.config (track.fetch code)).1 },
        ((track.after code frame).state.dispatch track.config (track.fetch code)).2) := by
  rw [after_eq]
  rfl

theorem state_after_succ (frames : Nat) :
    (track.after code (frames + 1)).state =
      ((track.after code frames).state.dispatch track.config (track.fetch code)).1 := by
  rw [after_succ, dispatch_after]

theorem eventsAt_eq (frame : Nat) :
    track.eventsAt code frame =
      ((track.after code frame).state.dispatch track.config (track.fetch code)).2 := by
  rw [eventsAt, dispatch_after]

theorem eventsAt_add (first second : Nat) :
    track.eventsAt code (first + second) = (track.after code first).eventsAt code second := by
  rw [eventsAt, eventsAt, after_add]

theorem run_append (commands others : List TrackCommand) :
    track.run code (commands ++ others) =
      let first := track.run code commands
      let rest := first.1.run code others
      (rest.1, first.2 ++ rest.2) := by
  induction commands generalizing track with
  | nil => rfl
  | cons command commands ih => simp [run_cons, ih]

/-- Frames and nothing else. -/
theorem run_replicate_dispatch (frames : Nat) :
    track.run code (List.replicate frames .dispatch) =
      (track.after code frames, (List.range frames).flatMap (track.eventsAt code)) := by
  induction frames with
  | zero => rfl
  | succ frames ih =>
    rw [List.replicate_succ', run_append, ih, List.range_succ, List.flatMap_append]
    simp [run_cons, perform, after_succ, eventsAt]

end Track

end Sequencer
