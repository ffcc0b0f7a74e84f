import Sequencer.Proofs.Track.Program

/-!
# The course of a program

A track that has nothing but a program, with zeros behind it, stays on its course: in
every frame it fetches inside the program, or the one zero behind the last `halt`.

* `Program.Stopped` — the last `halt` has stopped the track, which is so many bytes
  behind the program.
* `Program.OnCourse` — where a track fetches.  `Program.OnCourse.next` is the step,
  `Program.OnCourse.phase` the run of a phase.
* `Program.Tracked` — where a frame leaves a track, which may be one byte further.
  `Program.tracked_after` is the run over frames.
-/

namespace Sequencer.Program

/-- Whether the last `halt` has stopped the track, and how far behind the program it is. -/
structure Stopped (program : Program) (past : Nat) (state : TrackState) : Prop where
  halted : state.halted = true
  cursor : state.cursor.toNat = program.size + past

/-- Whether the track is inside the program, or right behind it and stopped. -/
def OnCourse (program : Program) (state : TrackState) : Prop :=
  program.Holds state ∨ program.Stopped 0 state

/-- Whether the track is on its course, or has stopped and gone over one zero. -/
def Tracked (program : Program) (state : TrackState) : Prop :=
  program.OnCourse state ∨ program.Stopped 1 state

variable {program : Program} {fetch : UInt16 → Instruction} {state : TrackState}

/-- Only the cursor, the anchor and the halt flag matter. -/
theorem Tracked.congr {other : TrackState} (tracked : program.Tracked state)
    (cursor : other.cursor = state.cursor) (anchor : other.sectionAnchor = state.sectionAnchor)
    (halted : other.halted = state.halted) : program.Tracked other := by
  obtain (⟨inside, first⟩ | ⟨stopped, behind⟩) | ⟨stopped, behind⟩ := tracked
  · exact .inl (.inl ⟨cursor ▸ inside, anchor ▸ first⟩)
  · exact .inl (.inr ⟨halted.trans stopped, cursor ▸ behind⟩)
  · exact .inr ⟨halted.trans stopped, cursor ▸ behind⟩

theorem Tracked.onCourse_of_running (tracked : program.Tracked state)
    (running : state.halted = false) : program.OnCourse state := by
  obtain onCourse | ⟨stopped, -⟩ := tracked
  · exact onCourse
  · rw [stopped] at running
    cases running

section Step

variable (arithmetic : Arithmetic) (placed : program.Placed fetch)
  (silent : ∀ cursor : UInt16, program.size ≤ cursor.toNat → fetch cursor = .nop)

include placed silent

/-- The step: the course is left only over the zero behind the program, which ends the phase. -/
theorem OnCourse.next (onCourse : program.OnCourse state) :
    program.OnCourse (state.next arithmetic fetch) ∨
      (fetch state.cursor).endsTick = true ∧ program.Stopped 1 (state.next arithmetic fetch) := by
  obtain holds | ⟨stopped, behind⟩ := onCourse
  · obtain kept | ⟨last, ended⟩ := Routine.execute_holds arithmetic placed holds
    · exact .inl (.inl kept)
    · refine .inl (.inr ⟨?_, ended⟩)
      rw [TrackState.next, TrackState.halted_execute, last]
      simp
  · have zero := silent state.cursor (Nat.le_of_eq behind.symm)
    have short := program.size_le
    refine .inr ⟨by rw [zero]; rfl, ?_, ?_⟩
    · rw [TrackState.next, TrackState.halted_execute, stopped, Bool.true_or]
    · rw [TrackState.next, zero, TrackState.cursor_execute, UInt16.toNat_add, behind]
      show (program.size + 0 + 1) % 65536 = program.size + 1
      omega

/-- The run: every instruction of a phase is fetched on the course. -/
theorem OnCourse.phase (onCourse : program.OnCourse state) (limit : Nat) :
    (∀ count < state.phaseLength arithmetic fetch limit,
      program.OnCourse ((TrackState.next arithmetic fetch)^[count] state)) ∧
    program.Tracked ((TrackState.next arithmetic fetch)^[state.phaseLength arithmetic fetch limit]
      state) := by
  -- on the instructions left; the course can be left only with the last of them
  induction limit generalizing state with
  | zero => exact ⟨fun count impossible => absurd impossible (Nat.not_lt_zero _), .inl onCourse⟩
  | succ limit ih =>
    have next := onCourse.next arithmetic placed silent
    rw [TrackState.phaseLength]
    by_cases ends : (fetch state.cursor).endsTick = true
    · rw [if_pos ends]
      refine ⟨?_, ?_⟩
      · intro count first
        obtain rfl : count = 0 := by omega
        exact onCourse
      · obtain kept | ⟨-, stopped⟩ := next
        · exact .inl kept
        · exact .inr stopped
    · rw [if_neg ends]
      have kept := next.resolve_right fun left => ends left.1
      obtain ⟨fetched, left⟩ := ih kept
      refine ⟨?_, left⟩
      intro count within
      cases count with
      | zero => exact onCourse
      | succ count => exact fetched count (by omega)

/-- A frame fetches on the course, and leaves the track at most one byte behind its end. -/
theorem Tracked.dispatch (config : TrackConfig) (tracked : program.Tracked state) :
    (∀ other ∈ state.fetching config fetch, program.OnCourse other) ∧
      program.Tracked (state.dispatch config fetch).1 := by
  by_cases halted : state.halted = true
  · obtain ⟨frame, -⟩ := TrackState.dispatch_of_halted config fetch halted
    rw [frame]
    exact ⟨by simp [TrackState.fetching, halted], tracked⟩
  have running : state.halted = false := by simpa using halted
  by_cases counting : 0 < state.tickCounter
  · obtain ⟨frame, -⟩ := TrackState.dispatch_of_counting config fetch running counting
    rw [frame]
    exact ⟨by simp [TrackState.fetching, counting], tracked.congr rfl rfl rfl⟩
  by_cases pausing : 0 < state.waitCounter
  · obtain ⟨frame, -⟩ := TrackState.dispatch_of_pausing config fetch running counting pausing
    rw [frame]
    exact ⟨by simp [TrackState.fetching, pausing], tracked.congr rfl rfl rfl⟩
  · obtain ⟨frame, -⟩ := TrackState.dispatch_of_ready config fetch running counting pausing
    have ready : program.Tracked state.ready := tracked.congr rfl rfl rfl
    obtain ⟨fetched, left⟩ := (ready.onCourse_of_running running).phase config.arithmetic placed
      silent config.maxInstructions
    rw [frame]
    refine ⟨?_, left⟩
    intro other member
    obtain ⟨count, within, rfl⟩ :=
      (TrackState.mem_fetching_of_ready config fetch running counting pausing).mp member
    exact fetched count within

end Step

/-- A track with nothing but a program stays on its course in every frame. -/
theorem tracked_after {track : Track} {code : Bytecode} (placed : program.Placed (track.fetch code))
    (silent : ∀ cursor : UInt16, program.size ≤ cursor.toNat → track.fetch code cursor = .nop)
    (fresh : track.state = {}) (frame : Nat) :
    program.Tracked (track.after code frame).state ∧
      ∀ state ∈ track.fetchingAt code frame, program.OnCourse state := by
  have tracked : program.Tracked (track.after code frame).state := by
    induction frame with
    | zero => exact .inl (.inl (fresh ▸ program.holds_default))
    | succ frame ih =>
      rw [Track.state_after_succ]
      exact (ih.dispatch placed silent track.config).2
  exact ⟨tracked, (tracked.dispatch placed silent track.config).1⟩

end Sequencer.Program
