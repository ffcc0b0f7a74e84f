import Sequencer.Proofs.Track.Course
import Sequencer.Proofs.Track.Schedule

/-!
# How phases come to their end

A phase that is not cut off by its limit ends with an instruction that ends it.  A program
reaches one in time if it does so from every place it can go back to.

* `TrackState.Quiet` — so many instructions go on with the phase.
* `TrackState.EndsWithin` — the phase comes to its end in fewer steps than a limit.
* `TrackState.Complete` — what a frame has executed, if anything, ends a phase.
* `Program.Home` — the places a program goes back to.  `Program.OnCourse.onward` says that
  from anywhere else a phase moves forward, so it gets home or to its end.
* `Program.complete_of_home` — the run over frames.
-/

namespace Sequencer

namespace TrackState

section Sequence

variable (arithmetic : Arithmetic) (fetch : UInt16 → Instruction)

/-- Whether so many instructions can be executed before one ends the phase. -/
def Quiet (count : Nat) (state : TrackState) : Prop :=
  ∀ instruction ∈ state.trace arithmetic fetch count, instruction.endsTick = false

/-- Whether one of the next instructions ends the phase. -/
def EndsWithin (limit : Nat) (state : TrackState) : Prop :=
  ∃ count < limit, state.Quiet arithmetic fetch count ∧
    (fetch ((next arithmetic fetch)^[count] state).cursor).endsTick = true

end Sequence

/-- Whether the instructions are those of a whole phase, and fewer than a limit. -/
def Complete (limit : Nat) (executed : List Instruction) : Prop :=
  ∃ before last, executed = before ++ [last] ∧ executed.length < limit ∧
    (∀ instruction ∈ before, instruction.endsTick = false) ∧ last.endsTick = true

variable {arithmetic : Arithmetic} {fetch : UInt16 → Instruction} {state : TrackState}
  {count limit : Nat}

theorem quiet_zero : state.Quiet arithmetic fetch 0 :=
  List.forall_mem_nil _

theorem quiet_succ_iff : state.Quiet arithmetic fetch (count + 1) ↔
    (fetch state.cursor).endsTick = false ∧
      (state.next arithmetic fetch).Quiet arithmetic fetch count :=
  List.forall_mem_cons

theorem quiet_add_iff {more : Nat} : state.Quiet arithmetic fetch (count + more) ↔
    state.Quiet arithmetic fetch count ∧
      ((next arithmetic fetch)^[count] state).Quiet arithmetic fetch more := by
  rw [Quiet, trace_add, List.forall_mem_append]
  rfl

/-- If there is always a way round, no phase comes to its end. -/
theorem quiet_of_recurring {round : TrackState → Prop}
    (recurs : ∀ state, round state → ∃ count, 0 < count ∧ state.Quiet arithmetic fetch count ∧
      round ((next arithmetic fetch)^[count] state))
    (start : round state) (count : Nat) : state.Quiet arithmetic fetch count := by
  induction count using Nat.strongRecOn generalizing state with
  | ind count ih =>
    obtain ⟨lap, some, quiet, back⟩ := recurs state start
    obtain within | ⟨more, rfl⟩ : count ≤ lap ∨ ∃ more, count = lap + more := by
      obtain le | le := Nat.le_total count lap
      · exact .inl le
      · exact .inr (Nat.exists_eq_add_of_le le)
    · obtain ⟨spare, rfl⟩ := Nat.exists_eq_add_of_le within
      exact (quiet_add_iff.mp quiet).1
    · exact quiet_add_iff.mpr ⟨quiet, ih more (by omega) back⟩

/-- A phase without an end is cut off. -/
theorem Quiet.phaseLength_eq (quiet : state.Quiet arithmetic fetch limit) :
    state.phaseLength arithmetic fetch limit = limit :=
  phaseLength_add quiet 0

theorem endsWithin_of_endsTick (ends : (fetch state.cursor).endsTick = true) :
    state.EndsWithin arithmetic fetch (limit + 1) :=
  ⟨0, Nat.succ_pos limit, quiet_zero, ends⟩

theorem EndsWithin.of_quiet (quiet : state.Quiet arithmetic fetch count)
    (ends : ((next arithmetic fetch)^[count] state).EndsWithin arithmetic fetch limit) :
    state.EndsWithin arithmetic fetch (count + limit) := by
  obtain ⟨more, fewer, quiet', ends⟩ := ends
  refine ⟨count + more, by omega, quiet_add_iff.mpr ⟨quiet, quiet'⟩, ?_⟩
  rw [Nat.add_comm, Function.iterate_add_apply]
  exact ends

/-- One instruction, and what comes behind it. -/
theorem EndsWithin.of_next
    (ends : (state.next arithmetic fetch).EndsWithin arithmetic fetch limit) :
    state.EndsWithin arithmetic fetch (limit + 1) := by
  by_cases first : (fetch state.cursor).endsTick = true
  · exact endsWithin_of_endsTick first
  · have quiet : state.Quiet arithmetic fetch 1 :=
      quiet_succ_iff.mpr ⟨by simpa using first, quiet_zero⟩
    rw [Nat.add_comm]
    exact .of_quiet quiet ends

theorem EndsWithin.mono {limit' : Nat} (ends : state.EndsWithin arithmetic fetch limit)
    (le : limit ≤ limit') : state.EndsWithin arithmetic fetch limit' := by
  obtain ⟨count, fewer, rest⟩ := ends
  exact ⟨count, by omega, rest⟩

theorem Complete.mono {limit' : Nat} {executed : List Instruction}
    (complete : Complete limit executed) (le : limit ≤ limit') : Complete limit' executed := by
  obtain ⟨before, last, whole, few, rest⟩ := complete
  exact ⟨before, last, whole, by omega, rest⟩

theorem length_trace (arithmetic : Arithmetic) (fetch : UInt16 → Instruction) (count : Nat)
    (state : TrackState) : (state.trace arithmetic fetch count).length = count := by
  rw [trace_eq_map, List.length_map, List.length_range]

/-- In a phase that comes to its end, so many instructions are executed. -/
theorem EndsWithin.complete {most : Nat} (ends : state.EndsWithin arithmetic fetch limit)
    (fits : limit ≤ most) :
    Complete (limit + 1)
      (state.trace arithmetic fetch (state.phaseLength arithmetic fetch most)) := by
  obtain ⟨count, fewer, quiet, last⟩ := ends
  obtain ⟨spare, rfl⟩ : ∃ spare, most = count + (spare + 1) := ⟨most - count - 1, by omega⟩
  rw [phaseLength_add quiet, phaseLength, if_pos last, trace_add]
  refine ⟨_, _, rfl, ?_, quiet, last⟩
  rw [← trace_add, length_trace]
  omega

end TrackState

/-- A frame whose first instruction ends the phase. -/
theorem Track.state_after_succ_of_endsTick {track : Track} {code : Bytecode} {frame : Nat}
    {state : TrackState} {instruction : Instruction} (some : 0 < track.config.maxInstructions)
    (here : (track.after code frame).state = state) (running : state.halted = false)
    (counted : state.tickCounter = 0) (resumed : state.waitCounter = 0)
    (fetched : track.fetch code state.cursor = instruction) (ends : instruction.endsTick = true) :
    (track.after code (frame + 1)).state =
      (state.ready.execute track.config.arithmetic instruction).1 := by
  obtain ⟨limit, positive⟩ := Nat.exists_eq_succ_of_ne_zero (Nat.ne_of_gt some)
  have ends' : (track.fetch code state.ready.cursor).endsTick = true := by
    rw [← ends, ← fetched]
    rfl
  rw [state_after_succ, here, (TrackState.dispatch_of_ready track.config (track.fetch code) running
    (by simp [counted]) (by simp [resumed])).1, positive, TrackState.phaseLength, if_pos ends',
    ← fetched]
  rfl

/-! ## Programs -/

namespace Program

/-- Where a program goes back to: its start, and where its sections start. -/
def Home (program : Program) (cursor : UInt16) : Prop :=
  cursor = 0 ∨ Starts program.instructions cursor.toNat .markSection

/-- Whether a jump of the program that does not lead forward leads home. -/
def Homing (program : Program) : Prop :=
  ∀ offset condition target, Starts program.instructions offset (.jump condition target) →
    offset < target.toNat ∨ program.Home target

/-- Whether a phase that starts at home comes to its end. -/
def EndsFromHome (program : Program) (arithmetic : Arithmetic) (fetch : UInt16 → Instruction)
    (limit : Nat) : Prop :=
  ∀ state : TrackState, program.Home state.cursor → program.Home state.sectionAnchor →
    state.EndsWithin arithmetic fetch limit

variable {program : Program} {fetch : UInt16 → Instruction} {state : TrackState}

section Step

variable (arithmetic : Arithmetic) (placed : program.Placed fetch)
  (silent : ∀ cursor : UInt16, program.size ≤ cursor.toNat → fetch cursor = .nop)

include placed silent

/-- On its course a track fetches an instruction of the program, or a zero. -/
theorem OnCourse.fetch_cases (onCourse : program.OnCourse state) :
    Starts program.instructions state.cursor.toNat (fetch state.cursor) ∨
      fetch state.cursor = .nop := by
  obtain ⟨inside, -⟩ | ⟨-, behind⟩ := onCourse
  · generalize place : state.cursor.toNat = offset at inside
    cases inside with
    | start starts =>
      subst place
      exact .inl ((placed.start _ _ starts).symm ▸ starts)
    | high conditional starts => exact .inr (placed.high _ _ _ _ place starts)
  · exact .inr (silent state.cursor (Nat.le_of_eq behind.symm))

/-- Repeats lead home. -/
theorem OnCourse.home_anchor (onCourse : program.OnCourse state)
    (home : program.Home state.sectionAnchor) :
    program.Home (state.next arithmetic fetch).sectionAnchor := by
  rw [TrackState.next, TrackState.sectionAnchor_execute]
  split
  next mark =>
    obtain starts | zero := onCourse.fetch_cases placed silent
    · exact .inr (mark ▸ starts)
    · rw [zero] at mark
      cases mark
  next => exact home

/-- An instruction that goes on with the phase leads forward or home. -/
theorem OnCourse.onward (homing : program.Homing) (onCourse : program.OnCourse state)
    (home : program.Home state.sectionAnchor)
    (goesOn : (fetch state.cursor).endsTick = false) :
    state.cursor.toNat < (state.next arithmetic fetch).cursor.toNat ∨
      program.Home (state.next arithmetic fetch).cursor := by
  obtain starts | zero := onCourse.fetch_cases placed silent
  · have fits := Routine.end_le_size starts
    rw [TrackState.next]
    generalize fetch state.cursor = instruction at *
    have nonempty := instruction.size_pos
    have forward : ∀ count, 0 < count → count ≤ instruction.size →
        state.cursor.toNat < (state.cursor + UInt16.ofNat count).toNat := by
      intro count some few
      have within : state.cursor.toNat + count ≤ program.toRoutine.size := by omega
      rw [Routine.toNat_add_of_le within]
      omega
    rw [TrackState.cursor_execute]
    cases instruction with
    | jump condition target =>
      by_cases taken : condition.holds state.flag
      · simp only [taken, if_true]
        exact homing _ _ _ starts
      · simp only [taken]
        exact .inl (forward 2 (by decide) (Nat.le_succ 2))
    | repeatSection condition =>
      by_cases taken : condition.holds state.flag
      · simp only [taken, if_true]
        exact .inr home
      · simp only [taken]
        exact .inl (forward 1 (by decide) nonempty)
    | _ => exact .inl (forward _ nonempty (Nat.le_refl _))
  · rw [zero] at goesOn
    cases goesOn

/-- A phase moves forward until it ends or gets home, so it ends in time if it does from there. -/
theorem OnCourse.endsWithin (homing : program.Homing) {limit : Nat}
    (ends : program.EndsFromHome arithmetic fetch limit)
    (onCourse : program.OnCourse state) (home : program.Home state.sectionAnchor) :
    state.EndsWithin arithmetic fetch (limit + program.size + 1) := by
  -- on the bytes left; each instruction that leads forward leaves fewer
  suffices general : ∀ left (state : TrackState), program.OnCourse state →
      program.Home state.sectionAnchor → program.size ≤ state.cursor.toNat + left →
        state.EndsWithin arithmetic fetch (limit + left + 1) from
    general program.size state onCourse home (Nat.le_add_left _ _)
  intro left
  induction left with
  | zero =>
    intro state onCourse home covered
    have zero := silent state.cursor (by omega)
    exact TrackState.endsWithin_of_endsTick (by rw [zero]; rfl)
  | succ left ih =>
    intro state onCourse home covered
    by_cases first : (fetch state.cursor).endsTick = true
    · exact TrackState.endsWithin_of_endsTick first
    have goesOn : (fetch state.cursor).endsTick = false := by simpa using first
    have home' := onCourse.home_anchor arithmetic placed silent home
    have onCourse' :=
      (onCourse.next arithmetic placed silent).resolve_right fun ended => first ended.1
    apply TrackState.EndsWithin.of_next
    obtain forward | back := onCourse.onward arithmetic placed silent homing home goesOn
    · exact ih _ onCourse' home' (by omega)
    · exact (ends _ back home').mono (by omega)

/-- Over a phase, repeats go on leading home. -/
theorem OnCourse.home_phase (onCourse : program.OnCourse state)
    (home : program.Home state.sectionAnchor) (limit : Nat) :
    program.Home ((TrackState.next arithmetic fetch)^[state.phaseLength arithmetic fetch limit]
      state).sectionAnchor := by
  obtain ⟨fetched, -⟩ := onCourse.phase arithmetic placed silent limit
  generalize state.phaseLength arithmetic fetch limit = length at fetched
  induction length with
  | zero => exact home
  | succ length ih =>
    rw [Function.iterate_succ_apply']
    exact (fetched length (Nat.lt_succ_self length)).home_anchor arithmetic placed silent
      (ih fun count fewer => fetched count (by omega))

end Step

/-- Whether a track is on its way and repeats lead home. -/
def Homed (program : Program) (state : TrackState) : Prop :=
  program.Tracked state ∧ program.Home state.sectionAnchor

section Frame

variable (config : TrackConfig) (placed : program.Placed fetch)
  (silent : ∀ cursor : UInt16, program.size ≤ cursor.toNat → fetch cursor = .nop)

include placed silent

/-- A frame keeps the invariant. -/
theorem Homed.dispatch (homed : program.Homed state) :
    program.Homed (state.dispatch config fetch).1 := by
  obtain ⟨tracked, home⟩ := homed
  refine ⟨(tracked.dispatch placed silent config).2, ?_⟩
  by_cases halted : state.halted = true
  · rwa [(TrackState.dispatch_of_halted config fetch halted).1]
  have running : state.halted = false := by simpa using halted
  by_cases counting : 0 < state.tickCounter
  · rwa [(TrackState.dispatch_of_counting config fetch running counting).1]
  by_cases pausing : 0 < state.waitCounter
  · rwa [(TrackState.dispatch_of_pausing config fetch running counting pausing).1]
  · have ready : program.OnCourse state.ready :=
      (tracked.congr rfl rfl rfl : program.Tracked state.ready).onCourse_of_running running
    rw [(TrackState.dispatch_of_ready config fetch running counting pausing).1]
    exact ready.home_phase config.arithmetic placed silent home config.maxInstructions

/-- A frame executes nothing, or a whole phase. -/
theorem Homed.complete (homing : program.Homing) {limit : Nat}
    (ends : program.EndsFromHome config.arithmetic fetch limit)
    (fits : limit + program.size + 1 ≤ config.maxInstructions) (homed : program.Homed state) :
    state.executed config fetch = [] ∨
      TrackState.Complete (limit + program.size + 2) (state.executed config fetch) := by
  obtain ⟨tracked, home⟩ := homed
  by_cases resting : state.halted = true ∨ 0 < state.tickCounter ∨ 0 < state.waitCounter
  · exact .inl (by rw [TrackState.executed, if_pos resting])
  · obtain ⟨running, -⟩ := not_or.mp resting
    have ready : program.OnCourse state.ready :=
      (tracked.congr rfl rfl rfl : program.Tracked state.ready).onCourse_of_running
        (Bool.eq_false_iff.mpr running)
    rw [TrackState.executed, if_neg resting]
    have within := OnCourse.endsWithin config.arithmetic placed silent homing ends ready home
    exact .inr (within.complete fits)

end Frame

/-- If a program comes to the end of a phase within a limit from every place it goes back to, every
phase is complete. -/
theorem complete_of_home {track : Track} {code : Bytecode}
    (placed : program.Placed (track.fetch code))
    (silent : ∀ cursor : UInt16, program.size ≤ cursor.toNat → track.fetch code cursor = .nop)
    (fresh : track.state = {}) (homing : program.Homing) {limit : Nat}
    (ends : program.EndsFromHome track.config.arithmetic (track.fetch code) limit)
    (fits : limit + program.size + 1 ≤ track.config.maxInstructions) (frame : Nat) :
    track.executedAt code frame = [] ∨
      TrackState.Complete (limit + program.size + 2) (track.executedAt code frame) := by
  have homed : program.Homed (track.after code frame).state := by
    induction frame with
    | zero => exact fresh ▸ ⟨.inl (.inl program.holds_default), .inl rfl⟩
    | succ frame ih =>
      rw [Track.state_after_succ]
      exact Homed.dispatch track.config placed silent ih
  exact Homed.complete track.config placed silent homing ends fits homed

end Program

end Sequencer
