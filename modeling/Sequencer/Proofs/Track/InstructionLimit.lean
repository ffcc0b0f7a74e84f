import Sequencer.Proofs.Track.Steps

/-!
# The limit of a phase changes when, not what

A limit that cuts a phase off lets the rest of it run in a later frame.  Counters and
pulses then differ from those of a track with another limit, but both follow one
sequence of instructions.

* `Track.Follows` — how far the frames of a track have come in that sequence.
* `Track.exists_follows` — every frame moves on in it by some number of instructions.
* `Track.events_prefix_of_limits` — so of two tracks that differ in their limit one
  has done, up to its first halt, the beginning of what the other has done.
-/

namespace Sequencer

/-- The events up to the first halt, which is the last of them. -/
def upToHalt : List Event → List Event
  | [] => []
  | event :: events => if event = .halt then [event] else event :: upToHalt events

theorem upToHalt_append_of_mem {events : List Event} (halts : .halt ∈ events)
    (more : List Event) : upToHalt (events ++ more) = upToHalt events := by
  induction events with
  | nil => cases halts
  | cons event events ih =>
    by_cases first : event = .halt
    · simp [upToHalt, first]
    · have later : .halt ∈ events := by
        obtain same | later := List.mem_cons.mp halts
        · exact absurd same.symm first
        · exact later
      simp [upToHalt, first, ih later]

theorem upToHalt_prefix_append (events more : List Event) :
    upToHalt events <+: upToHalt (events ++ more) := by
  induction events with
  | nil => exact List.nil_prefix
  | cons event events ih =>
    by_cases first : event = .halt
    · simp [upToHalt, first]
    · simpa [upToHalt, first, List.cons_prefix_cons] using ih

namespace Track

/-- The frames have executed so many instructions.  Once there was a `halt` among them, further
frames have only reported it. -/
structure Follows (track : Track) (code : Bytecode) (frames count : Nat) : Prop where
  state : (track.after code frames).state.untimed =
    ((TrackState.next track.config.arithmetic (track.fetch code))^[count] track.state).untimed
  executed : (List.range frames).flatMap (track.executedAt code) =
    track.state.trace track.config.arithmetic (track.fetch code) count
  events : ∃ reports, (List.range frames).flatMap (track.eventsAt code) =
      track.state.heard track.config.arithmetic (track.fetch code) count ++
        List.replicate reports .halt ∧
    (reports ≠ 0 → .halt ∈ track.state.heard track.config.arithmetic (track.fetch code) count)

variable {track : Track} {code : Bytecode} {frames count : Nat}

/-- A track is halted just if there was a `halt` among its instructions. -/
theorem Follows.halted_iff (follows : track.Follows code frames count)
    (running : track.state.halted = false) :
    (track.after code frames).state.halted = true ↔
      .halt ∈ track.state.heard track.config.arithmetic (track.fetch code) count := by
  rw [TrackState.halted_congr follows.state, TrackState.halted_iterate_next, running,
    Bool.false_or, decide_eq_true_iff]

/-- A frame that executes nothing and raises nothing. -/
theorem Follows.silent (follows : track.Follows code frames count)
    (state : (track.after code (frames + 1)).state.untimed =
      (track.after code frames).state.untimed)
    (executed : track.executedAt code frames = []) (events : track.eventsAt code frames = []) :
    track.Follows code (frames + 1) count := by
  refine ⟨state.trans follows.state, ?_, ?_⟩
  · simp [List.range_succ, executed, follows.executed]
  · simpa [List.range_succ, events] using follows.events

theorem Follows.frame (follows : track.Follows code frames count)
    (running : track.state.halted = false) :
    ∃ more, track.Follows code (frames + 1) (count + more) := by
  have halted_iff := follows.halted_iff running
  obtain ⟨state, executed, reports, events, reported⟩ := follows
  have follows : track.Follows code frames count := ⟨state, executed, reports, events, reported⟩
  by_cases halted : (track.after code frames).state.halted = true
  · -- the halt is reported once more
    obtain ⟨frame, nothing⟩ :=
      TrackState.dispatch_of_halted track.config (track.fetch code) halted
    refine ⟨0, ?_, ?_, reports + 1, ?_, fun _ => halted_iff.mp halted⟩
    · rw [state_after_succ, frame, Nat.add_zero]
      exact state
    · simp [List.range_succ, executedAt, nothing, executed]
    · simp [List.range_succ, eventsAt_eq, frame, events, List.replicate_succ']
  have going : (track.after code frames).state.halted = false := by simpa using halted
  by_cases counting : 0 < (track.after code frames).state.tickCounter
  · obtain ⟨frame, nothing⟩ :=
      TrackState.dispatch_of_counting track.config (track.fetch code) going counting
    refine ⟨0, follows.silent ?_ nothing ?_⟩
    · rw [state_after_succ, frame]
      rfl
    · rw [eventsAt_eq, frame]
  by_cases pausing : 0 < (track.after code frames).state.waitCounter
  · obtain ⟨frame, nothing⟩ :=
      TrackState.dispatch_of_pausing track.config (track.fetch code) going counting pausing
    refine ⟨0, follows.silent ?_ nothing ?_⟩
    · rw [state_after_succ, frame]
      rfl
    · rw [eventsAt_eq, frame]
  · obtain ⟨frame, executed'⟩ :=
      TrackState.dispatch_of_ready track.config (track.fetch code) going counting pausing
    -- a phase goes on from a state that differs in counters and pulses only
    have ready : (track.after code frames).state.ready.untimed =
        ((TrackState.next track.config.arithmetic (track.fetch code))^[count]
          track.state).untimed := state
    generalize TrackState.phaseLength _ _ _ _ = length at frame executed'
    have unreported : reports = 0 := by
      by_contra some
      exact halted (halted_iff.mpr (reported some))
    refine ⟨length, ?_, ?_, 0, ?_, fun impossible => absurd rfl impossible⟩
    · rw [state_after_succ, frame, TrackState.iterate_next_congr ready, Nat.add_comm count,
        Function.iterate_add_apply]
    · rw [List.range_succ, List.flatMap_append, executed, TrackState.trace_add, List.flatMap_singleton,
        executedAt, executed', TrackState.trace_congr ready]
    · rw [List.range_succ, List.flatMap_append, events, TrackState.heard_add, List.flatMap_singleton,
        eventsAt_eq, frame, TrackState.heard_congr ready, unreported]
      simp

/-- Every number of frames comes some way in the sequence of instructions. -/
theorem exists_follows (track : Track) (code : Bytecode) (running : track.state.halted = false)
    (frames : Nat) :
    ∃ count, track.Follows code frames count := by
  induction frames with
  | zero => exact ⟨0, rfl, rfl, 0, rfl, fun impossible => absurd rfl impossible⟩
  | succ frames ih =>
    obtain ⟨count, follows⟩ := ih
    obtain ⟨more, follows'⟩ := follows.frame running
    exact ⟨count + more, follows'⟩

/-- Up to the first halt only what has been executed counts. -/
theorem Follows.upToHalt_events (follows : track.Follows code frames count) :
    upToHalt (track.run code (List.replicate frames .dispatch)).2 =
      upToHalt (track.state.heard track.config.arithmetic (track.fetch code) count) := by
  obtain ⟨-, -, reports, events, reported⟩ := follows
  rw [run_replicate_dispatch, events]
  cases reports with
  | zero => simp
  | succ reports => exact upToHalt_append_of_mem (reported (by omega)) _

/-- Of two tracks in the same state, the one that has come less far has done the beginning of what
the other has done. -/
theorem Follows.prefix_of_le {other : Track} {frames' count' : Nat}
    (follows : track.Follows code frames count) (follows' : other.Follows code frames' count')
    (base : track.base = other.base) (state : track.state = other.state)
    (arithmetic : track.config.arithmetic = other.config.arithmetic) (le : count ≤ count') :
    upToHalt (track.run code (List.replicate frames .dispatch)).2 <+:
        upToHalt (other.run code (List.replicate frames' .dispatch)).2 ∧
      (List.range frames).flatMap (track.executedAt code) <+:
        (List.range frames').flatMap (other.executedAt code) := by
  have fetch : track.fetch code = other.fetch code := by
    unfold Track.fetch
    rw [base]
  obtain ⟨more, rfl⟩ := Nat.exists_eq_add_of_le le
  rw [follows.upToHalt_events, follows'.upToHalt_events, follows.executed, follows'.executed,
    state, fetch, arithmetic, TrackState.heard_add, TrackState.trace_add]
  exact ⟨upToHalt_prefix_append _ _, List.prefix_append _ _⟩

/-- Whatever the limits of two tracks and however many frames each has run, one of them has raised
the first events of the other, up to the first halt, and executed its first instructions. -/
theorem events_prefix_of_limits (code : Bytecode) (base : UInt16) (arithmetic : Arithmetic)
    (limit limit' frames frames' : Nat) :
    let track : Track := { base, config := { maxInstructions := limit, arithmetic } }
    let other : Track := { base, config := { maxInstructions := limit', arithmetic } }
    let events := upToHalt (track.run code (List.replicate frames .dispatch)).2
    let events' := upToHalt (other.run code (List.replicate frames' .dispatch)).2
    let executed := (List.range frames).flatMap (track.executedAt code)
    let executed' := (List.range frames').flatMap (other.executedAt code)
    (events <+: events' ∧ executed <+: executed') ∨
      (events' <+: events ∧ executed' <+: executed) := by
  intro track other events events' executed executed'
  obtain ⟨count, follows⟩ := track.exists_follows code rfl frames
  obtain ⟨count', follows'⟩ := other.exists_follows code rfl frames'
  obtain le | le := Nat.le_total count count'
  · exact .inl (follows.prefix_of_le follows' rfl rfl rfl le)
  · exact .inr (follows'.prefix_of_le follows rfl rfl rfl le)

end Track

end Sequencer
