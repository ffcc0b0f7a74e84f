import Sequencer.Proofs.Track.Countdown
import Sequencer.Proofs.Track.Program

/-!
# The schedule of a program without jumps

Without jumps, repeats and halts each instruction is followed by the one that lies
behind it.  Each phase then executes the instructions up to the next one that ends a
phase, and how many frames lie between two phases can be read off the program.

* `Instruction.rate?`, `Instruction.pause?`, `Instruction.event?` and
  `Instruction.registerAfter` — what an instruction sets and raises.
* `Laid` — a fetch function reads such a program from the front of a buffer.
* `TrackState.Passed` — the invariant: the state in which the instructions up to some
  place have left a track.
* `due` — the frame in which an instruction that ends a phase is executed.
* `Track.Reached` — the invariant over frames: what has happened before such a frame.
* `Track.exists_turn`, `Track.silent_of_ne_due`, `Track.eventsAt_last` — what happens
  in the frames in which something is due, between them, and at the end.
-/

namespace Sequencer

/-! ## What an instruction sets and raises -/

namespace Instruction

/-- The rate that the instruction sets. -/
def rate? : Instruction → Option Nat
  | ticks rate => some rate.toNat
  | ticks16 rate => some rate.toNat
  | _ => none

/-- The number of phases that the instruction sits out. -/
def pause? : Instruction → Option Nat
  | wait phases => some phases.toNat
  | wait16 phases => some phases.toNat
  | _ => none

/-- The event that the instruction raises, given the register. -/
def event? (register : Int32) : Instruction → Option Event
  | halt => some .halt
  | syscall code => some (.syscall code)
  | instrument index => some (.instrument index)
  | instrumentSet => some (.instrument (UInt8.ofNat register.toInt.natAbs))
  | play pitch | note pitch => some (.play pitch)
  | playSet => some (.play (UInt8.ofNat register.toInt.natAbs))
  | nop | jump _ _ | markSection | repeatSection _ | set _ | add _ | sub _ | compare _ _
  | ticks _ | ticks16 _ | wait _ | wait16 _ => none

/-- The register behind the instruction. -/
def registerAfter (arithmetic : Arithmetic) (register : Int32) : Instruction → Int32
  | set value => Int32.ofNat value.toNat
  | add value => arithmetic.add register (Int32.ofNat value.toNat)
  | sub value => arithmetic.add register (-Int32.ofNat value.toNat)
  | _ => register

/-- Whether the instruction that follows is always the one that lies behind it. -/
def Onward : Instruction → Prop
  | halt | jump _ _ | repeatSection _ => False
  | _ => True

variable {instruction : Instruction}

theorem pause?_of_not_endsTick (goesOn : instruction.endsTick = false) :
    instruction.pause? = none := by
  cases instruction <;> simp_all [endsTick, pause?]

theorem rate?_of_not_endsTick (goesOn : instruction.endsTick = false) :
    instruction.rate? = none := by
  cases instruction <;> simp_all [endsTick, rate?]

/-- No instruction changes the rate and pauses. -/
theorem rate?_of_pause? {phases : Nat} (pauses : instruction.pause? = some phases) :
    instruction.rate? = none := by
  cases instruction <;> simp_all [pause?, rate?]

theorem event?_of_not_endsTick (onward : instruction.Onward)
    (goesOn : instruction.endsTick = false) (register : Int32) :
    instruction.event? register = none := by
  cases instruction <;> simp_all [Onward, endsTick, event?]

theorem event?_ne_halt (onward : instruction.Onward) (register : Int32) :
    instruction.event? register ≠ some .halt := by
  cases instruction <;> simp_all [Onward, event?]

end Instruction

/-- The last rate that one of the instructions sets. -/
def rateAfter (instructions : List Instruction) : Nat :=
  (instructions.filterMap Instruction.rate?).getLast?.getD 0

/-- The register behind the instructions. -/
def registerAfter (arithmetic : Arithmetic) (instructions : List Instruction) : Int32 :=
  instructions.foldl (Instruction.registerAfter arithmetic) 0

theorem rateAfter_concat (instructions : List Instruction) (last : Instruction) :
    rateAfter (instructions ++ [last]) = last.rate?.getD (rateAfter instructions) := by
  cases sets : last.rate? <;> simp [rateAfter, sets]

theorem registerAfter_concat (arithmetic : Arithmetic) (instructions : List Instruction)
    (last : Instruction) :
    registerAfter arithmetic (instructions ++ [last]) =
      last.registerAfter arithmetic (registerAfter arithmetic instructions) := by
  simp [registerAfter]

/-- Only instructions that end a phase set the rate. -/
theorem rateAfter_filter (instructions : List Instruction) :
    rateAfter (instructions.filter (·.endsTick)) = rateAfter instructions := by
  rw [rateAfter, rateAfter, List.filterMap_filter]
  congr 3
  funext instruction
  cases ends : instruction.endsTick with
  | true => simp
  | false => simp [Instruction.rate?_of_not_endsTick ends]

theorem rateAfter_append_of_not_endsTick {run : List Instruction}
    (goesOn : ∀ instruction ∈ run, instruction.endsTick = false) (before : List Instruction) :
    rateAfter (before ++ run) = rateAfter before := by
  have none : run.filter (·.endsTick) = [] := by simpa using goesOn
  rw [← rateAfter_filter, List.filter_append, none, List.append_nil, rateAfter_filter]

namespace TrackState

section Execute

variable (arithmetic : Arithmetic) (state : TrackState) (instruction : Instruction)

theorem event_execute :
    (state.execute arithmetic instruction).2 = instruction.event? state.register := by
  cases instruction <;> rfl

theorem register_execute :
    (state.execute arithmetic instruction).1.register =
      instruction.registerAfter arithmetic state.register := by
  cases instruction with
  | jump condition target | repeatSection condition =>
    simp only [execute, branch, advance]
    split <;> rfl
  | _ => rfl

theorem tickRate_execute :
    (state.execute arithmetic instruction).1.tickRate.toNat =
      instruction.rate?.getD state.tickRate.toNat := by
  cases instruction with
  | jump condition target | repeatSection condition =>
    simp only [execute, branch, advance]
    split <;> rfl
  | ticks rate => simp [execute, Instruction.rate?]
  | _ => rfl

theorem waitCounter_execute :
    (state.execute arithmetic instruction).1.waitCounter.toNat =
      instruction.pause?.getD state.waitCounter.toNat := by
  cases instruction with
  | jump condition target | repeatSection condition =>
    simp only [execute, branch, advance]
    split <;> rfl
  | wait phases => simp [execute, Instruction.pause?]
  | _ => rfl

/-- No instruction counts down. -/
theorem tickCounter_execute :
    (state.execute arithmetic instruction).1.tickCounter = state.tickCounter := by
  cases instruction with
  | jump condition target | repeatSection condition =>
    simp only [execute, branch, advance]
    split <;> rfl
  | _ => rfl

end Execute

variable {arithmetic : Arithmetic} {fetch : UInt16 → Instruction} {state other : TrackState}

theorem tickCounter_iterate_next (count : Nat) :
    ((next arithmetic fetch)^[count] state).tickCounter = state.tickCounter := by
  induction count generalizing state with
  | zero => rfl
  | succ count ih => rw [Function.iterate_succ_apply, ih, next, tickCounter_execute]

/-! ## The beginning of a phase -/

theorem waitCounter_iterate_next {count : Nat}
    (goesOn : ∀ instruction ∈ state.trace arithmetic fetch count, instruction.endsTick = false) :
    ((next arithmetic fetch)^[count] state).waitCounter.toNat = state.waitCounter.toNat := by
  induction count generalizing state with
  | zero => rfl
  | succ count ih =>
    obtain ⟨first, rest⟩ := List.forall_mem_cons.mp goesOn
    rw [Function.iterate_succ_apply, ih rest, next, waitCounter_execute,
      Instruction.pause?_of_not_endsTick first]
    rfl

theorem phaseLength_add {count : Nat}
    (goesOn : ∀ instruction ∈ state.trace arithmetic fetch count, instruction.endsTick = false)
    (limit : Nat) :
    state.phaseLength arithmetic fetch (count + limit) =
      count + ((next arithmetic fetch)^[count] state).phaseLength arithmetic fetch limit := by
  induction count generalizing state with
  | zero => simp
  | succ count ih =>
    obtain ⟨first, rest⟩ := List.forall_mem_cons.mp goesOn
    rw [Nat.succ_add, phaseLength, first, if_neg Bool.false_ne_true, ih rest,
      Function.iterate_succ_apply]
    omega

theorem heard_of_not_endsTick {count : Nat}
    (goesOn : ∀ instruction ∈ state.trace arithmetic fetch count,
      instruction.Onward ∧ instruction.endsTick = false) :
    state.heard arithmetic fetch count = [] := by
  induction count generalizing state with
  | zero => rfl
  | succ count ih =>
    obtain ⟨⟨onward, first⟩, rest⟩ := List.forall_mem_cons.mp goesOn
    rw [heard, ih rest, event_execute, Instruction.event?_of_not_endsTick onward first]
    rfl

end TrackState

/-! ## From one instruction to the one behind it -/

/-- The fetch function reads instructions that lie one behind the other, with a `halt` behind
them and zeros behind that. -/
structure Laid (body : List Instruction) (fetch : UInt16 → Instruction) : Prop where
  start : ∀ before instruction after, body ++ [.halt] = before ++ instruction :: after →
    fetch (UInt16.ofNat (bytesOf before).length) = instruction
  behind : fetch (UInt16.ofNat (bytesOf (body ++ [.halt])).length) = .nop
  onward : ∀ instruction ∈ body, instruction.Onward

/-- Whether every run of instructions that do not end a phase leaves room for one that does. -/
def RunsFit (limit : Nat) (body : List Instruction) : Prop :=
  ∀ run, run <:+: body → (∀ instruction ∈ run, instruction.endsTick = false) → run.length < limit

theorem RunsFit.length_lt {limit : Nat} {body before run after : List Instruction}
    (room : RunsFit limit body) (split : body = before ++ (run ++ after))
    (goesOn : ∀ instruction ∈ run, instruction.endsTick = false) : run.length < limit :=
  room run ⟨before, after, by rw [split, List.append_assoc]⟩ goesOn

namespace TrackState

/-- The state in which the instructions leave a fresh track, but for its counters. -/
structure Passed (arithmetic : Arithmetic) (before : List Instruction) (state : TrackState) :
    Prop where
  cursor : state.cursor = UInt16.ofNat (bytesOf before).length
  register : state.register = registerAfter arithmetic before
  rate : state.tickRate.toNat = rateAfter before
  running : state.halted = false

variable {arithmetic : Arithmetic} {fetch : UInt16 → Instruction} {state other : TrackState}
  {body before run after : List Instruction} {instruction ender : Instruction}

theorem passed_default (arithmetic : Arithmetic) : Passed arithmetic [] {} :=
  ⟨rfl, rfl, rfl, rfl⟩

theorem Passed.congr (passed : Passed arithmetic before state)
    (same : other.untimed = state.untimed) : Passed arithmetic before other := by
  have registers := congrArg TrackState.register same
  have rates := congrArg TrackState.tickRate same
  obtain ⟨cursor, register, rate, running⟩ := passed
  exact ⟨(cursor_congr same).trans cursor, registers.trans register,
    (congrArg UInt16.toNat rates).trans rate, (halted_congr same).trans running⟩

theorem Passed.fetch_cursor (laid : Laid body fetch) (passed : Passed arithmetic before state)
    (split : body ++ [.halt] = before ++ instruction :: after) :
    fetch state.cursor = instruction := by
  rw [passed.cursor]
  exact laid.start before instruction after split

/-- The step: the cursor goes over the instruction, and only what it sets is changed. -/
theorem Passed.execute (passed : Passed arithmetic before state) (onward : instruction.Onward) :
    Passed arithmetic (before ++ [instruction]) (state.execute arithmetic instruction).1 := by
  obtain ⟨cursor, register, rate, running⟩ := passed
  constructor
  · have moved : (state.execute arithmetic instruction).1.cursor =
        state.cursor + UInt16.ofNat instruction.size := by
      rw [cursor_execute]
      cases instruction with
      | jump condition target | repeatSection condition => exact onward.elim
      | _ => rfl
    rw [moved, cursor, ← UInt16.ofNat_add]
    simp [bytesOf]
  · rw [register_execute, registerAfter_concat, register]
  · rw [tickRate_execute, rateAfter_concat, rate]
  · rw [halted_execute, running, Bool.false_or, beq_eq_false_iff_ne]
    rintro rfl
    exact onward

/-- The run: the instructions that lie behind follow one after the other. -/
theorem Passed.trace (laid : Laid body fetch) (passed : Passed arithmetic before state)
    (split : body = before ++ (run ++ after)) :
    state.trace arithmetic fetch run.length = run ∧
      Passed arithmetic (before ++ run) ((next arithmetic fetch)^[run.length] state) := by
  -- the instructions executed so far move from the run to what lies in front of it
  induction run generalizing before state with
  | nil => exact ⟨rfl, by simpa using passed⟩
  | cons instruction run ih =>
    have fetched : fetch state.cursor = instruction :=
      passed.fetch_cursor laid (by rw [split, List.append_assoc]; rfl)
    have onward : instruction.Onward := laid.onward instruction (by simp [split])
    have passed' : Passed arithmetic (before ++ [instruction]) (state.next arithmetic fetch) := by
      rw [next, fetched]
      exact passed.execute onward
    obtain ⟨rest, passed''⟩ := ih passed' (by simpa using split)
    constructor
    · rw [List.length_cons, TrackState.trace, fetched, rest]
    · rw [List.length_cons, Function.iterate_succ_apply]
      simpa using passed''

/-! ## Phases -/

/-- Instructions that do not end the phase are a part of it that raises nothing. -/
theorem Passed.part (laid : Laid body fetch) (passed : Passed arithmetic before state)
    (split : body = before ++ (run ++ after))
    (goesOn : ∀ instruction ∈ run, instruction.endsTick = false) :
    state.heard arithmetic fetch run.length = [] ∧
      ((next arithmetic fetch)^[run.length] state).waitCounter.toNat = state.waitCounter.toNat ∧
      ∀ limit, state.phaseLength arithmetic fetch (run.length + limit) =
        run.length + ((next arithmetic fetch)^[run.length] state).phaseLength arithmetic fetch
          limit := by
  obtain ⟨traced, -⟩ := passed.trace laid split
  rw [← traced] at goesOn
  refine ⟨heard_of_not_endsTick fun instruction member => ⟨?_, goesOn instruction member⟩,
    waitCounter_iterate_next goesOn, phaseLength_add goesOn⟩
  rw [traced] at member
  exact laid.onward instruction (by simp [split, member])

/-- A phase executes the instructions up to the next one that ends it, and only that one raises
an event. -/
theorem Passed.phase (laid : Laid body fetch) (passed : Passed arithmetic before state)
    (split : body = before ++ (run ++ ender :: after))
    (goesOn : ∀ instruction ∈ run, instruction.endsTick = false) (ends : ender.endsTick = true)
    {limit : Nat} (room : run.length < limit) :
    state.phaseLength arithmetic fetch limit = (run ++ [ender]).length ∧
      state.heard arithmetic fetch (run ++ [ender]).length =
        (ender.event? (registerAfter arithmetic (before ++ run))).toList ∧
      ((next arithmetic fetch)^[(run ++ [ender]).length] state).waitCounter.toNat =
        ender.pause?.getD state.waitCounter.toNat := by
  obtain ⟨-, passed'⟩ := passed.trace laid split
  obtain ⟨silent, waited, length⟩ := passed.part laid split goesOn
  -- behind the run the cursor is on the instruction that ends the phase
  have fetched : fetch ((next arithmetic fetch)^[run.length] state).cursor = ender :=
    passed'.fetch_cursor laid (by simp [split] : body ++ [.halt] =
      (before ++ run) ++ ender :: (after ++ [.halt]))
  obtain ⟨rest, rfl⟩ : ∃ rest, limit = run.length + (rest + 1) :=
    ⟨limit - run.length - 1, by omega⟩
  rw [List.length_append, List.length_singleton, length, heard_add, silent,
    Function.iterate_succ_apply', next, waitCounter_execute, waited]
  simp only [phaseLength, heard, fetched, ends, if_true, event_execute, passed'.register]
  simp

/-- The phase behind the last instruction that ends one executes the `halt`. -/
theorem Passed.lastPhase (laid : Laid body fetch) (passed : Passed arithmetic before state)
    (split : body = before ++ run)
    (goesOn : ∀ instruction ∈ run, instruction.endsTick = false)
    {limit : Nat} (room : run.length < limit) :
    state.heard arithmetic fetch (state.phaseLength arithmetic fetch limit) = [.halt] := by
  have split' : body = before ++ (run ++ []) := by simpa using split
  obtain ⟨-, passed'⟩ := passed.trace laid split'
  obtain ⟨silent, -, length⟩ := passed.part laid split' goesOn
  have fetched : fetch ((next arithmetic fetch)^[run.length] state).cursor = .halt :=
    passed'.fetch_cursor laid (by rw [split])
  obtain ⟨rest, rfl⟩ : ∃ rest, limit = run.length + (rest + 1) :=
    ⟨limit - run.length - 1, by omega⟩
  rw [length, heard_add, silent, List.nil_append]
  generalize (next arithmetic fetch)^[run.length] state = last at passed' fetched
  cases rest with
  | zero => simp [phaseLength, heard, fetched, event_execute, Instruction.event?]
  | succ rest =>
    -- a halt does not end the phase, but the zero behind it does
    have behind : fetch (last.next arithmetic fetch).cursor = .nop := by
      have moved : (last.next arithmetic fetch).cursor =
          UInt16.ofNat (bytesOf (body ++ [.halt])).length := by
        rw [next, fetched, cursor_execute, passed'.cursor, ← split, ← UInt16.ofNat_add]
        simp [bytesOf]
      rw [moved]
      exact laid.behind
    simp [phaseLength, heard, fetched, behind, Instruction.endsTick, event_execute,
      Instruction.event?]

/-- A frame in which a phase starts. -/
theorem Passed.dispatch {config : TrackConfig} (laid : Laid body fetch)
    (passed : Passed config.arithmetic before state)
    (split : body = before ++ (run ++ ender :: after))
    (goesOn : ∀ instruction ∈ run, instruction.endsTick = false) (ends : ender.endsTick = true)
    (room : run.length < config.maxInstructions) (due : state.delay = 0) :
    state.executed config fetch = run ++ [ender] ∧
      (state.dispatch config fetch).2 =
        (ender.event? (registerAfter config.arithmetic (before ++ run))).toList ∧
      Passed config.arithmetic (before ++ (run ++ [ender])) (state.dispatch config fetch).1 ∧
      (state.dispatch config fetch).1.delay + 1 =
        (1 + ender.pause?.getD 0) * (1 + rateAfter before) := by
  obtain ⟨counted, resumed⟩ := delay_eq_zero_iff.mp due
  obtain ⟨frame, executed⟩ := dispatch_of_ready config fetch passed.running counted resumed
  have ready : Passed config.arithmetic before state.ready := passed.congr rfl
  have split' : body = before ++ ((run ++ [ender]) ++ after) := by simpa using split
  obtain ⟨traced, passed'⟩ := ready.trace laid split'
  obtain ⟨length, heard, waited⟩ := ready.phase laid split goesOn ends room
  rw [length] at frame executed
  refine ⟨executed.trans traced, ?_, ?_, ?_⟩
  · rw [frame, heard]
  · rw [frame]
    exact passed'
  · rw [frame, delay, waited, tickCounter_iterate_next, passed'.rate, ← List.append_assoc,
      rateAfter_concat, rateAfter_append_of_not_endsTick goesOn]
    have rate : state.ready.tickCounter.toNat = rateAfter before := passed.rate
    have resumed : state.waitCounter.toNat = 0 := by
      simpa [UInt16.lt_iff_toNat_lt] using resumed
    -- an instruction that pauses does not change the rate, so the pause is counted in the old one
    rw [rate, show state.ready.waitCounter.toNat = 0 from resumed]
    cases pauses : ender.pause? with
    | none => simp [Nat.add_comm]
    | some phases =>
      rw [Instruction.rate?_of_pause? pauses]
      simp only [Option.getD_some, Option.getD_none, Nat.add_mul, Nat.mul_add]
      omega

/-- The frame in which the `halt` behind the program is executed. -/
theorem Passed.dispatch_last {config : TrackConfig} (laid : Laid body fetch)
    (passed : Passed config.arithmetic before state) (split : body = before ++ run)
    (goesOn : ∀ instruction ∈ run, instruction.endsTick = false)
    (room : run.length < config.maxInstructions) (due : state.delay = 0) :
    (state.dispatch config fetch).2 = [.halt] := by
  obtain ⟨counted, resumed⟩ := delay_eq_zero_iff.mp due
  obtain ⟨frame, -⟩ := dispatch_of_ready config fetch passed.running counted resumed
  have ready : Passed config.arithmetic before state.ready := passed.congr rfl
  rw [frame]
  exact ready.lastPhase laid split goesOn room

end TrackState

/-! ## From one phase to the next -/

/-- The frame in which the instruction with that number is executed, of those that end a phase.
Behind it come the frames of the rate that was set before it, once for the phase itself and once
for each phase that it sits out. -/
def due (enders : List Instruction) : Nat → Nat
  | 0 => 0
  | turn + 1 =>
    due enders turn +
      (1 + (enders[turn]?.bind Instruction.pause?).getD 0) * (1 + rateAfter (enders.take turn))

namespace Track

/-- When the frame of a turn comes, the instructions in front of a place have been executed, and
all frames in which nothing was due have passed in silence. -/
structure Reached (track : Track) (code : Bytecode) (enders before : List Instruction)
    (turn : Nat) : Prop where
  taken : before.filter (·.endsTick) = enders.take turn
  executed : (List.range (due enders turn)).flatMap (track.executedAt code) = before
  passed : TrackState.Passed track.config.arithmetic before
    (track.after code (due enders turn)).state
  delay : (track.after code (due enders turn)).state.delay = 0
  silent : ∀ frame < due enders turn, (∀ earlier < turn, frame ≠ due enders earlier) →
    track.executedAt code frame = [] ∧ track.eventsAt code frame = []

variable {track : Track} {code : Bytecode} {body enders before run after : List Instruction}
  {ender : Instruction} {turn : Nat}

theorem reached_zero (fresh : track.state = {}) : track.Reached code enders [] 0 := by
  have state : (track.after code (due enders 0)).state = {} := fresh
  refine ⟨rfl, rfl, ?_, ?_, fun _ impossible => absurd impossible (Nat.not_lt_zero _)⟩
  · rw [state]
    exact TrackState.passed_default _
  · rw [state]
    rfl

/-- From one turn to the next. -/
theorem Reached.succ (reached : track.Reached code enders before turn)
    (laid : Laid body (track.fetch code)) (split : body = before ++ (run ++ ender :: after))
    (goesOn : ∀ instruction ∈ run, instruction.endsTick = false) (ends : ender.endsTick = true)
    (ender_eq : enders[turn]? = some ender)
    (room : run.length < track.config.maxInstructions) :
    track.executedAt code (due enders turn) = run ++ [ender] ∧
      track.eventsAt code (due enders turn) =
        (ender.event? (registerAfter track.config.arithmetic (before ++ run))).toList ∧
      track.Reached code enders (before ++ (run ++ [ender])) (turn + 1) := by
  obtain ⟨taken, executed, passed, delay, silent⟩ := reached
  obtain ⟨executed', events, passed', left⟩ :=
    passed.dispatch laid split goesOn ends room delay
  rw [← eventsAt_eq] at events
  rw [← state_after_succ] at passed' left
  refine ⟨executed', events, ?_⟩
  -- the frames up to the next turn only count down
  have next : due enders (turn + 1) = due enders turn + 1 +
      (track.after code (due enders turn + 1)).state.delay := by
    rw [due, ender_eq, Option.bind_some, ← taken, rateAfter_filter, ← left]
    omega
  obtain ⟨same, counted, meanwhile⟩ := after_of_le_delay passed'.running (Nat.le_refl _)
  rw [← next] at same counted
  constructor
  · have none : run.filter (·.endsTick) = [] := by simpa using goesOn
    rw [List.take_add_one, ender_eq, List.filter_append, List.filter_append, taken, none]
    simp [ends]
  · have nothing : (List.range (track.after code (due enders turn + 1)).state.delay).flatMap
        (fun passed => track.executedAt code (due enders turn + 1 + passed)) = [] := by
      rw [List.flatMap_eq_nil_iff]
      exact fun passed member => (meanwhile passed (List.mem_range.mp member)).2
    rw [next, List.range_add, List.flatMap_append, List.flatMap_map, nothing, List.range_succ,
      List.flatMap_append, executed, List.flatMap_singleton, executedAt, executed', List.append_nil]
  · exact passed'.congr same
  · omega
  · intro frame lt other
    obtain earlier | rfl | later : frame < due enders turn ∨ frame = due enders turn ∨
      due enders turn + 1 ≤ frame := by omega
    · exact silent frame earlier fun number lt => other number (by omega)
    · exact absurd rfl (other turn (by omega))
    · obtain ⟨passed, rfl⟩ := Nat.exists_eq_add_of_le later
      exact (meanwhile passed (by omega)).symm

/-- Behind a place that has been reached lie those whose turn is still to come. -/
theorem Reached.filter_after (reached : track.Reached code (body.filter (·.endsTick)) before turn)
    (split : body = before ++ after) :
    after.filter (·.endsTick) = (body.filter (·.endsTick)).drop turn := by
  have parts : body.filter (·.endsTick) =
      before.filter (·.endsTick) ++ after.filter (·.endsTick) := by
    rw [split, List.filter_append]
  rw [reached.taken] at parts
  exact List.append_cancel_left (parts.symm.trans (List.take_append_drop turn _).symm)

theorem Reached.exists_run (reached : track.Reached code (body.filter (·.endsTick)) before turn)
    (split : body = before ++ after) (within : turn < (body.filter (·.endsTick)).length) :
    ∃ run rest, body = before ++ (run ++ (body.filter (·.endsTick))[turn] :: rest) ∧
      ∀ instruction ∈ run, instruction.endsTick = false := by
  have remaining := reached.filter_after split
  rw [List.drop_eq_getElem_cons within, List.filter_eq_cons_iff] at remaining
  obtain ⟨run, rest, after_eq, goesOn, -, -⟩ := remaining
  exact ⟨run, rest, by rw [← after_eq, ← split], by simpa using goesOn⟩

/-- Every turn is reached in the frame in which it is due. -/
theorem exists_reached (laid : Laid body (track.fetch code)) (fresh : track.state = {})
    (room : RunsFit track.config.maxInstructions body)
    (le : turn ≤ (body.filter (·.endsTick)).length) :
    ∃ before after, body = before ++ after ∧
      track.Reached code (body.filter (·.endsTick)) before turn := by
  induction turn with
  | zero => exact ⟨[], body, rfl, reached_zero fresh⟩
  | succ turn ih =>
    obtain ⟨before, after, split, reached⟩ := ih (by omega)
    obtain ⟨run, rest, split', goesOn⟩ := reached.exists_run split le
    have ends := (List.mem_filter.mp (List.getElem_mem le)).2
    -- the run in front of this turn fits into a phase, so the turn comes in the same one
    obtain ⟨-, -, reached'⟩ := reached.succ laid split' goesOn ends
      (List.getElem?_eq_getElem le) (room.length_lt split' goesOn)
    exact ⟨_, rest, by simpa using split', reached'⟩

section Turns

variable (laid : Laid body (track.fetch code)) (fresh : track.state = {})
  (room : RunsFit track.config.maxInstructions body)

include laid fresh room

/-- What happens when an instruction that ends a phase is due. -/
theorem exists_turn (within : turn < (body.filter (·.endsTick)).length) :
    ∃ before run after, body = before ++ (run ++ (body.filter (·.endsTick))[turn] :: after) ∧
      before.filter (·.endsTick) = (body.filter (·.endsTick)).take turn ∧
      (∀ instruction ∈ run, instruction.endsTick = false) ∧
      (List.range (due (body.filter (·.endsTick)) turn)).flatMap (track.executedAt code) = before ∧
      track.executedAt code (due (body.filter (·.endsTick)) turn) =
        run ++ [(body.filter (·.endsTick))[turn]] ∧
      track.eventsAt code (due (body.filter (·.endsTick)) turn) =
        ((body.filter (·.endsTick))[turn].event?
          (registerAfter track.config.arithmetic (before ++ run))).toList := by
  obtain ⟨before, after, split, reached⟩ := exists_reached laid fresh room (Nat.le_of_lt within)
  obtain ⟨run, rest, split', goesOn⟩ := reached.exists_run split within
  obtain ⟨executed, events, -⟩ := reached.succ laid split' goesOn
    (List.mem_filter.mp (List.getElem_mem within)).2 (List.getElem?_eq_getElem within)
    (room.length_lt split' goesOn)
  exact ⟨before, run, rest, split', reached.taken, goesOn, reached.executed, executed, events⟩

/-- Between two turns nothing happens. -/
theorem silent_of_ne_due {frame : Nat}
    (lt : frame < due (body.filter (·.endsTick)) (body.filter (·.endsTick)).length)
    (other : ∀ turn < (body.filter (·.endsTick)).length,
      frame ≠ due (body.filter (·.endsTick)) turn) :
    track.executedAt code frame = [] ∧ track.eventsAt code frame = [] := by
  obtain ⟨before, after, -, reached⟩ := exists_reached laid fresh room (Nat.le_refl _)
  exact reached.silent frame lt other

theorem halt_not_mem_eventsAt {frame : Nat}
    (lt : frame < due (body.filter (·.endsTick)) (body.filter (·.endsTick)).length) :
    .halt ∉ track.eventsAt code frame := by
  -- what is due raises no halt, and in all other frames there is no event
  by_cases dueThen : ∃ turn < (body.filter (·.endsTick)).length,
    frame = due (body.filter (·.endsTick)) turn
  · obtain ⟨turn, within, rfl⟩ := dueThen
    obtain ⟨before, run, -, -, -, -, -, -, events⟩ := exists_turn laid fresh room within
    have member := (List.mem_filter.mp (List.getElem_mem within)).1
    rw [events, Option.mem_toList]
    exact Instruction.event?_ne_halt (laid.onward _ member) _
  · rw [(silent_of_ne_due laid fresh room lt
      fun turn within same => dueThen ⟨turn, within, same⟩).2]
    exact List.not_mem_nil

/-- Behind the last turn comes the `halt`. -/
theorem eventsAt_last :
    track.eventsAt code (due (body.filter (·.endsTick)) (body.filter (·.endsTick)).length) =
      [.halt] := by
  obtain ⟨before, run, split, reached⟩ := exists_reached laid fresh room (Nat.le_refl _)
  have goesOn : ∀ instruction ∈ run, instruction.endsTick = false := by
    simpa using (reached.filter_after split).trans (List.drop_length ..)
  have fits := room.length_lt (by simpa using split : body = before ++ (run ++ [])) goesOn
  rw [eventsAt_eq]
  exact reached.passed.dispatch_last laid split goesOn fits reached.delay

end Turns

end Track

end Sequencer
