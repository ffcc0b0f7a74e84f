import Sequencer.Proofs.Track.Steps

/-!
# The frames before the next phase

A track that is not halted lets frames pass until its counters are down: first the
frames that its rate has left over, then as many phases as it sits out, each of them
with the frames of its rate.

* `TrackState.delay` — how many frames that are.
* `TrackState.dispatch_of_delay_pos` — each of them counts down by one.
* `Track.after_of_le_delay` — meanwhile nothing is executed, nothing is raised, and
  only counters and pulses change.
* `Track.across` — frames over buffers that may change.  `Track.silent_until_phase` is about
  the frames before the next phase and the one that starts it, whatever the buffers.
-/

namespace Sequencer

namespace TrackState

/-- The number of frames before the next phase. -/
def delay (state : TrackState) : Nat :=
  state.tickCounter.toNat + state.waitCounter.toNat * (state.tickRate.toNat + 1)

theorem delay_eq_zero_iff {state : TrackState} :
    state.delay = 0 ↔ ¬0 < state.tickCounter ∧ ¬0 < state.waitCounter := by
  simp only [delay, UInt16.lt_iff_toNat_lt, UInt16.toNat_zero, Nat.add_eq_zero_iff,
    Nat.mul_eq_zero]
  omega

theorem dispatch_of_delay_pos (config : TrackConfig) (fetch : UInt16 → Instruction)
    {state : TrackState} (running : state.halted = false) (pending : 0 < state.delay) :
    (state.dispatch config fetch).2 = [] ∧ state.executed config fetch = [] ∧
      (state.dispatch config fetch).1.delay + 1 = state.delay ∧
      (state.dispatch config fetch).1.untimed = state.untimed := by
  by_cases counting : 0 < state.tickCounter
  · obtain ⟨frame, nothing⟩ := dispatch_of_counting config fetch running counting
    have counted := toNat_sub_one counting
    refine ⟨by rw [frame], nothing, ?_, by rw [frame]; rfl⟩
    rw [frame]
    simp only [delay]
    omega
  · have counted : state.tickCounter.toNat = 0 := by
      simpa [UInt16.lt_iff_toNat_lt] using counting
    by_cases pausing : 0 < state.waitCounter
    · obtain ⟨frame, nothing⟩ := dispatch_of_pausing config fetch running counting pausing
      have waited := toNat_sub_one pausing
      refine ⟨by rw [frame], nothing, ?_, by rw [frame]; rfl⟩
      -- the counter is set to the rate, and the rate stays
      rw [frame]
      simp only [delay, ready, clearPulses, counted, ← waited, Nat.add_mul]
      omega
    · exact absurd (delay_eq_zero_iff.mpr ⟨counting, pausing⟩) (by omega)

/-- Such a frame does not depend on the program. -/
theorem dispatch_congr_of_delay_pos {state : TrackState} (running : state.halted = false)
    (pending : 0 < state.delay) (config : TrackConfig) (fetch fetch' : UInt16 → Instruction) :
    state.dispatch config fetch = state.dispatch config fetch' := by
  by_cases counting : 0 < state.tickCounter
  · rw [(dispatch_of_counting config fetch running counting).1,
      (dispatch_of_counting config fetch' running counting).1]
  · have pausing : 0 < state.waitCounter := by
      by_contra resumed
      exact absurd (delay_eq_zero_iff.mpr ⟨counting, resumed⟩) (by omega)
    rw [(dispatch_of_pausing config fetch running counting pausing).1,
      (dispatch_of_pausing config fetch' running counting pausing).1]

/-- Once the counters are down, a phase starts, and what it starts with can be told from any state
that differs in counters and pulses only. -/
theorem dispatch_of_delay_eq_zero (config : TrackConfig) (fetch : UInt16 → Instruction)
    {state other : TrackState} (running : state.halted = false) (done : state.delay = 0)
    (same : state.untimed = other.untimed) :
    let ready : TrackState :=
      { other with
        tickCounter := other.tickRate, waitCounter := 0
        syscallPulse := false, instrumentPulse := false, playPulse := false }
    let phase := ready.runPhase config.arithmetic fetch config.maxInstructions []
    state.dispatch config fetch = (phase.1, phase.2.reverse) ∧
      (0 < config.maxInstructions →
        (state.executed config fetch).head? = some (fetch other.cursor)) := by
  intro ready phase
  obtain ⟨counted, resumed⟩ := delay_eq_zero_iff.mp done
  have wait : state.waitCounter = 0 := eq_zero_of_not_pos resumed
  have start : state.ready = ready := by
    have untimed : state.ready =
        { state.untimed with
          tickCounter := state.untimed.tickRate, waitCounter := state.waitCounter } := rfl
    rw [untimed, same, wait]
    rfl
  refine ⟨?_, fun some => ?_⟩
  · rw [dispatch_eq_runPhase config fetch running counted resumed, start]
  · obtain ⟨limit, more⟩ := Nat.exists_eq_add_of_lt some
    rw [(dispatch_of_ready config fetch running counted resumed).2, start, more, Nat.zero_add,
      phaseLength]
    split <;> rfl

end TrackState

namespace Track

variable {track : Track} {code : Bytecode} {frame : Nat}

theorem after_of_le_delay (running : (track.after code frame).state.halted = false) {passed : Nat}
    (le : passed ≤ (track.after code frame).state.delay) :
    (track.after code (frame + passed)).state.untimed = (track.after code frame).state.untimed ∧
      (track.after code (frame + passed)).state.delay + passed =
        (track.after code frame).state.delay ∧
      ∀ earlier < passed, track.eventsAt code (frame + earlier) = [] ∧
        track.executedAt code (frame + earlier) = [] := by
  induction passed with
  | zero => exact ⟨rfl, rfl, fun _ impossible => by omega⟩
  | succ passed ih =>
    obtain ⟨same, left, silent⟩ := ih (by omega)
    have going : (track.after code (frame + passed)).state.halted = false :=
      (TrackState.halted_congr same).trans running
    -- not all frames of the delay have passed, so this one only counts down
    obtain ⟨events, executed, counted, same'⟩ := TrackState.dispatch_of_delay_pos track.config
      (track.fetch code) going (by omega)
    rw [← Nat.add_assoc, state_after_succ]
    refine ⟨same'.trans same, by omega, fun earlier lt => ?_⟩
    obtain before | rfl : earlier < passed ∨ earlier = passed := by omega
    · exact silent earlier before
    · exact ⟨(eventsAt_eq track code _).trans events, executed⟩

/-! ## Buffers that change -/

/-- The track after frames, each over a buffer of its own. -/
def across (track : Track) (buffers : List Bytecode) : Track :=
  buffers.foldl (fun track code => (track.dispatch code).1) track

theorem across_cons (track : Track) (code : Bytecode) (buffers : List Bytecode) :
    track.across (code :: buffers) = (track.dispatch code).1.across buffers :=
  rfl

/-- Only the state of a track changes. -/
theorem across_eq (track : Track) (buffers : List Bytecode) :
    track.across buffers = { track with state := (track.across buffers).state } := by
  induction buffers generalizing track with
  | nil => rfl
  | cons code buffers ih => exact ih (track.dispatch code).1

/-- As long as the delay lasts, each frame takes one off it and changes counters and pulses only. -/
theorem across_of_length_le_delay {track : Track} (running : track.state.halted = false)
    {buffers : List Bytecode} (le : buffers.length ≤ track.state.delay) :
    (track.across buffers).state.untimed = track.state.untimed ∧
      (track.across buffers).state.delay + buffers.length = track.state.delay := by
  induction buffers generalizing track with
  | nil => exact ⟨rfl, rfl⟩
  | cons code buffers ih =>
    rw [List.length_cons] at le ⊢
    obtain ⟨-, -, counted, same⟩ := TrackState.dispatch_of_delay_pos track.config
      (track.fetch code) running (by omega)
    have going : (track.dispatch code).1.state.halted = false :=
      (TrackState.halted_congr same).trans running
    have left : (track.dispatch code).1.state.delay + 1 = track.state.delay := counted
    obtain ⟨same', left'⟩ := ih going (by omega)
    exact ⟨same'.trans same, by rw [across_cons]; omega⟩

/-- A track that is not halted lets exactly as many frames pass as its counters say.  Whatever the
buffers, each of them fetches nothing, raises nothing, and changes counters and pulses only.  The
next one starts a phase, with no pulse, nothing left to wait for, and the counter set to the
rate. -/
theorem silent_until_phase (track : Track) (running : track.state.halted = false)
    (buffers : List Bytecode) :
    let delay := track.state.tickCounter.toNat +
      track.state.waitCounter.toNat * (track.state.tickRate.toNat + 1)
    let here := track.across buffers
    (buffers.length < delay →
      ∃ passed : TrackState, passed.untimed = track.state.untimed ∧
        ∀ code, here.dispatch code = ({ track with state := passed }, []) ∧
          here.state.executed track.config (track.fetch code) = []) ∧
    (buffers.length = delay →
      here.state.untimed = track.state.untimed ∧
      here.state.tickCounter = 0 ∧ here.state.waitCounter = 0 ∧
      let ready : TrackState :=
        { track.state with
          tickCounter := track.state.tickRate, waitCounter := 0
          syscallPulse := false, instrumentPulse := false, playPulse := false }
      ∀ code,
        let phase := ready.runPhase track.config.arithmetic (track.fetch code)
          track.config.maxInstructions []
        here.dispatch code = ({ track with state := phase.1 }, phase.2.reverse) ∧
        (0 < track.config.maxInstructions →
          (here.state.executed track.config (track.fetch code)).head? =
            some (track.fetch code track.state.cursor))) := by
  intro delay here
  have total : track.state.delay = delay := rfl
  have reached (le : buffers.length ≤ delay) : here.state.untimed = track.state.untimed ∧
      here.state.delay + buffers.length = delay := across_of_length_le_delay running le
  have frame (code : Bytecode) : here.dispatch code =
      ({ track with state := (here.state.dispatch track.config (track.fetch code)).1 },
        (here.state.dispatch track.config (track.fetch code)).2) := by
    rw [show here = _ from across_eq track buffers]
    rfl
  refine ⟨fun before => ?_, fun passed => ?_⟩
  · obtain ⟨same, left⟩ := reached (Nat.le_of_lt before)
    have going : here.state.halted = false := (TrackState.halted_congr same).trans running
    have pending : 0 < here.state.delay := by omega
    have counts (code : Bytecode) :=
      TrackState.dispatch_of_delay_pos track.config (track.fetch code) going pending
    refine ⟨_, (counts #[]).2.2.2.trans same, fun code => ⟨?_, (counts code).2.1⟩⟩
    rw [frame, (counts code).1, TrackState.dispatch_congr_of_delay_pos going pending track.config
      (track.fetch code) (track.fetch #[])]
  · obtain ⟨same, left⟩ := reached (Nat.le_of_eq passed)
    have going : here.state.halted = false := (TrackState.halted_congr same).trans running
    have done : here.state.delay = 0 := by omega
    obtain ⟨counted, resumed⟩ := TrackState.delay_eq_zero_iff.mp done
    refine ⟨same, eq_zero_of_not_pos counted, eq_zero_of_not_pos resumed, fun code => ?_⟩
    obtain ⟨phase, first⟩ :=
      TrackState.dispatch_of_delay_eq_zero track.config (track.fetch code) going done same
    rw [frame, phase]
    exact ⟨rfl, first⟩

/-- A track in the middle of a pause, with a pulse of the phase before it. -/
def pausingTrack : Track where
  state := { cursor := 2, tickCounter := 1, tickRate := 2, waitCounter := 1, playPulse := true }

/-- The fourth frame is the last silent one, and the fifth plays, whatever stood in the buffer
before. -/
theorem silent_pausingTrack :
    pausingTrack.state.halted = false ∧
    ((pausingTrack.across [#[0xFF], #[], #[0xFF]]).dispatch #[0xFF]).2 = [] ∧
    (pausingTrack.across [#[0xFF], #[], #[0xFF], #[]]).state.tickCounter = 0 ∧
    (pausingTrack.across [#[0xFF], #[], #[0xFF], #[]]).state.waitCounter = 0 ∧
    ((pausingTrack.across [#[0xFF], #[], #[0xFF], #[]]).dispatch #[0xE7, 9, 0xE7, 60]).2 =
      [.play 60] := by
  have running : pausingTrack.state.halted = false := rfl
  obtain ⟨_, -, silent⟩ :=
    (silent_until_phase pausingTrack running [#[0xFF], #[], #[0xFF]]).1 (by decide)
  obtain ⟨-, tick, wait, phase⟩ :=
    (silent_until_phase pausingTrack running [#[0xFF], #[], #[0xFF], #[]]).2 (by decide)
  refine ⟨running, ?_, tick, wait, ?_⟩
  · rw [(silent #[0xFF]).1]
  · rw [(phase #[0xE7, 9, 0xE7, 60]).1]
    decide

end Track

end Sequencer
