import Sequencer.Proofs.Track.Steps

/-!
# What a frame raises and what it leaves to be seen

A phase goes on behind a halt, so it can ask to halt again and again.  Anything else is raised
by the instruction that ends the phase, so it comes last, there is at most one of it, and the
pulses tell which.

* `TrackState.Shows` — the pulses tell of an event, and its value stands in the field for it.
* `TrackState.shows_runPhase` — the invariant of a phase that starts without pulses, and
  `TrackState.shows_dispatch` what it says about a frame.
* `Track.through` — a track after commands of its host.  `Track.count_pulses_through` is about
  the pulses such a track can have.
* `Track.shape_of_dispatch` — the events and the state of a frame, case by case.
-/

namespace Sequencer

namespace TrackState

/-- The pulses of a system call, of an instrument and of a note. -/
def pulses (state : TrackState) : List Bool :=
  [state.syscallPulse, state.instrumentPulse, state.playPulse]

/-- Whether the pulses tell of this event and of no other, and its value has been kept.  Without an
event there is no pulse, and no pulse tells of a halt. -/
def Shows (state : TrackState) : Option Event → Prop
  | none => state.pulses = [false, false, false]
  | some .halt => False
  | some (.syscall code) => state.pulses = [true, false, false] ∧ state.syscallCode = code
  | some (.instrument index) => state.pulses = [false, true, false] ∧ state.instrument = index
  | some (.play pitch) => state.pulses = [false, false, true] ∧ state.note = pitch

variable {state : TrackState} {last : Option Event}

theorem Shows.ne_halt (shows' : state.Shows last) : last ≠ some .halt := by
  rintro rfl
  exact shows'

theorem Shows.count_pulses (shows' : state.Shows last) : state.pulses.count true ≤ 1 := by
  cases last with
  | none =>
    have quiet : state.pulses = [false, false, false] := shows'
    rw [quiet]
    decide
  | some event =>
    cases event with
    | halt => exact absurd rfl shows'.ne_halt
    | syscall | instrument | play =>
      rw [shows'.1]
      decide

theorem shows_ready (state : TrackState) : state.ready.Shows none :=
  rfl

/-- An instruction behind which the phase goes on asks for nothing but a halt. -/
theorem execute_of_not_endsTick (arithmetic : Arithmetic) (state : TrackState)
    {instruction : Instruction} (goesOn : instruction.endsTick = false) :
    (state.execute arithmetic instruction).1.pulses = state.pulses ∧
      ((state.execute arithmetic instruction).2 = none ∨
        (state.execute arithmetic instruction).2 = some .halt) := by
  cases instruction with
  | jump condition target | repeatSection condition =>
    refine ⟨?_, .inl rfl⟩
    simp only [execute, branch, advance]
    split <;> rfl
  | halt => exact ⟨rfl, .inr rfl⟩
  | markSection | set | add | sub | compare => exact ⟨rfl, .inl rfl⟩
  | _ => cases goesOn

/-- The instruction that ends a phase sets the pulse of what it raises. -/
theorem shows_execute_of_endsTick (arithmetic : Arithmetic) (quiet : state.Shows none)
    {instruction : Instruction} (ends : instruction.endsTick = true) :
    (state.execute arithmetic instruction).1.Shows (state.execute arithmetic instruction).2 := by
  obtain ⟨syscall, instrument, play⟩ :
      state.syscallPulse = false ∧ state.instrumentPulse = false ∧ state.playPulse = false := by
    simpa [Shows, pulses] using quiet
  cases instruction with
  | halt | jump | markSection | repeatSection | set | add | sub | compare => cases ends
  | _ => simp [execute, advance, select, sound, Shows, pulses, syscall, instrument, play]

/-- A phase asks to halt any number of times, then for at most one thing more, which is shown. -/
theorem shows_runPhase (arithmetic : Arithmetic) (fetch : UInt16 → Instruction) (limit : Nat)
    (quiet : state.Shows none) :
    ∃ halts last,
      (state.runPhase arithmetic fetch limit []).2.reverse =
        List.replicate halts .halt ++ last.toList ∧
      (state.runPhase arithmetic fetch limit []).1.Shows last := by
  induction limit generalizing state with
  | zero => exact ⟨0, none, rfl, quiet⟩
  | succ limit ih =>
    simp only [runPhase]
    split
    next ends =>
      refine ⟨0, _, ?_, shows_execute_of_endsTick arithmetic quiet ends⟩
      simp [reverse_toList]
    next goesOn =>
      obtain ⟨pulses, event⟩ :=
        execute_of_not_endsTick arithmetic state (Bool.eq_false_iff.mpr goesOn)
      have quiet : (state.execute arithmetic (fetch state.cursor)).1.Shows none :=
        pulses.trans quiet
      obtain ⟨halts, last, later, shows'⟩ := ih quiet
      rw [runPhase_eq_append, List.reverse_append, later]
      obtain none | halt := event
      · exact ⟨halts, last, by simp [none], shows'⟩
      · exact ⟨halts + 1, last, by simp [halt, List.replicate_succ], shows'⟩

section Frame

variable (config : TrackConfig) (fetch : UInt16 → Instruction)

/-- What a frame raises that starts a phase, be it only to sit it out, is shown. -/
theorem shows_dispatch (running : state.halted = false) (counted : ¬0 < state.tickCounter) :
    ∃ halts last,
      (state.dispatch config fetch).2 = List.replicate halts .halt ++ last.toList ∧
      (state.dispatch config fetch).1.Shows last ∧
      ((state.dispatch config fetch).1.halted = true ↔ 0 < halts) := by
  by_cases pausing : 0 < state.waitCounter
  · have still : state.ready.halted = false := running
    rw [(dispatch_of_pausing config fetch running counted pausing).1]
    exact ⟨0, none, rfl, rfl, by simp [still]⟩
  · have reported := halted_dispatch_iff config fetch running
    have frame := dispatch_eq_runPhase config fetch running counted pausing
    obtain ⟨halts, last, events, shows'⟩ :=
      shows_runPhase config.arithmetic fetch config.maxInstructions (shows_ready state)
    rw [frame] at reported ⊢
    refine ⟨halts, last, events, shows', reported.trans ?_⟩
    rw [events, List.mem_append, List.mem_replicate, Option.mem_toList]
    simp [shows'.ne_halt, Nat.pos_iff_ne_zero]

theorem count_pulses_dispatch (single : state.pulses.count true ≤ 1) :
    (state.dispatch config fetch).1.pulses.count true ≤ 1 := by
  by_cases halted : state.halted = true
  · rw [(dispatch_of_halted config fetch halted).1]
    exact single
  have running : state.halted = false := by simpa using halted
  by_cases counting : 0 < state.tickCounter
  · rw [(dispatch_of_counting config fetch running counting).1]
    exact single
  · obtain ⟨halts, last, -, shows', -⟩ := shows_dispatch config fetch running counting
    exact shows'.count_pulses

end Frame

end TrackState

namespace Track

/-- The track after commands of its host, each carried out over a buffer of its own. -/
def through (track : Track) (commands : List (Bytecode × TrackCommand)) : Track :=
  commands.foldl (fun track (code, command) => (track.perform code command).1) track

theorem count_pulses_through (track : Track) (commands : List (Bytecode × TrackCommand))
    (single : track.state.pulses.count true ≤ 1) :
    (track.through commands).state.pulses.count true ≤ 1 := by
  induction commands generalizing track with
  | nil => exact single
  | cons first commands ih =>
    obtain ⟨code, command⟩ := first
    apply ih (track.perform code command).1
    cases command with
    | dispatch => exact TrackState.count_pulses_dispatch track.config (track.fetch code) single
    | reset => exact Nat.zero_le 1
    | halt | resume => exact single

/-- Whatever its state, a frame of a track raises halts and then at most one other event.  Of a
halted track it is one halt, and the track stays as it is.  A track that counts down does so and
raises nothing.  Otherwise the pulses tell of the last event and of no other, and the track is
halted just if there was a halt.  So no commands bring a fresh track to more than one pulse. -/
theorem shape_of_dispatch :
    (∀ (track : Track) (code : Bytecode), ∃ halts last,
      (track.dispatch code).2 = List.replicate halts .halt ++ last.toList ∧ last ≠ some .halt ∧
      if track.state.halted then
        halts = 1 ∧ last = none ∧ (track.dispatch code).1 = track
      else if 0 < track.state.tickCounter then
        halts = 0 ∧ last = none ∧ (track.dispatch code).1 =
          { track with state.tickCounter := track.state.tickCounter - 1 }
      else
        (track.dispatch code).1.state.Shows last ∧
          ((track.dispatch code).1.state.halted = true ↔ 0 < halts)) ∧
    ∀ (base : UInt16) (config : TrackConfig) (commands : List (Bytecode × TrackCommand)),
      (({ base, config } : Track).through commands).state.pulses.count true ≤ 1 := by
  refine ⟨fun track code => ?_, fun _ _ commands => count_pulses_through _ commands (Nat.zero_le 1)⟩
  have frame : track.dispatch code =
      ({ track with state := (track.state.dispatch track.config (track.fetch code)).1 },
        (track.state.dispatch track.config (track.fetch code)).2) := rfl
  by_cases halted : track.state.halted = true
  · rw [(TrackState.dispatch_of_halted track.config (track.fetch code) halted).1] at frame
    simp only [frame, halted, if_true]
    exact ⟨1, none, rfl, by simp, rfl, rfl, trivial⟩
  have running : track.state.halted = false := by simpa using halted
  by_cases counting : 0 < track.state.tickCounter
  · rw [(TrackState.dispatch_of_counting track.config _ running counting).1] at frame
    simp only [frame, halted, counting, if_true]
    exact ⟨0, none, rfl, by simp, rfl, rfl, trivial⟩
  · obtain ⟨halts, last, events, shows', reported⟩ :=
      TrackState.shows_dispatch track.config (track.fetch code) running counting
    simp only [halted, counting, if_false]
    exact ⟨halts, last, events, shows'.ne_halt, shows', reported⟩

end Track

end Sequencer
