import Sequencer.Proofs.Player
import Sequencer.Proofs.Track.Steps

/-!
# A player as an ensemble of tracks

All channels of a player send their cues to one queue, which each frame empties.  Yet
what comes out is that of tracks which know nothing of each other: the cues of each
frame are those of the channels, one channel after the other, and each channel gives
what its track gives when it is run by itself.

* `Channel.track_after`, `Channel.tagged_frame` — a channel beside its track.
* `Player.dispatches`, `Player.dispatchesBefore` — the frames that run the channels.
* `Player.channels_after` — the channels a run has come to.
* `Player.tagged_cuesAt` — its cues, frame by frame.
-/

namespace Sequencer

/-- What a track asks for in the frame with that number, if it is left alone once it has halted. -/
def Track.eventsUntilHalted (track : Track) (code : Bytecode) (frame : Nat) : List Event :=
  if (track.after code frame).state.halted then [] else track.eventsAt code frame

/-! ## Channels -/

/-- A cue without its pack. -/
def Cue.tagged (cue : Cue) : Nat × Event :=
  (cue.channel, cue.event)

namespace Channel

variable (channel : Channel) (code : Bytecode)

/-- The channel after a number of frames. -/
def after (frames : Nat) : Channel :=
  (fun channel => (channel.frame code).1)^[frames] channel

theorem after_succ (frames : Nat) :
    channel.after code (frames + 1) = ((channel.after code frames).frame code).1 :=
  Function.iterate_succ_apply' _ _ _

theorem index_after (frames : Nat) : (channel.after code frames).index = channel.index := by
  induction frames with
  | zero => rfl
  | succ frames ih => rw [after_succ, index_frame, ih]

/-- A frame leaves a halted track alone, and so would the track's own frame. -/
theorem track_frame : (channel.frame code).1.track = (channel.track.dispatch code).1 := by
  by_cases halted : channel.track.state.halted = true
  · obtain ⟨frame, -⟩ :=
      TrackState.dispatch_of_halted channel.track.config (channel.track.fetch code) halted
    rw [frame_of_halted halted, Track.dispatch, frame]
  · rw [frame_of_running (by simpa using halted), track_foldl_hearing]

theorem track_after (frames : Nat) :
    (channel.after code frames).track = channel.track.after code frames := by
  induction frames with
  | zero => rfl
  | succ frames ih => rw [after_succ, track_frame, ih, Track.after_succ]

theorem tagged_cuesOf (events : List Event) :
    (channel.cuesOf events).map Cue.tagged = events.map (channel.index, ·) := by
  induction events generalizing channel with
  | nil => rfl
  | cons event events ih =>
    rw [cuesOf_cons, List.map_cons, ih, List.map_cons]
    rfl

/-- A channel hands on what its track asks for, all of it and in order. -/
theorem tagged_frame (frames : Nat) :
    ((channel.after code frames).frame code).2.map Cue.tagged =
      (channel.track.eventsUntilHalted code frames).map (channel.index, ·) := by
  rw [Track.eventsUntilHalted, ← track_after]
  by_cases halted : (channel.after code frames).track.state.halted = true
  · simp [frame_of_halted halted, halted]
  · rw [if_neg halted, frame_of_running (by simpa using halted), tagged_cuesOf, Track.eventsAt,
      ← track_after, ← index_after channel code frames]

end Channel

/-! ## Players -/

namespace Player

/-- Whether the frame with that number runs the channels. -/
def dispatches (player : Player) (frame : Nat) : Bool :=
  (player.after frame).frameCounter == 0

/-- The number of frames before that one that run the channels. -/
def dispatchesBefore (player : Player) (frame : Nat) : Nat :=
  (List.range frame).countP player.dispatches

theorem dispatchesBefore_succ (player : Player) (frame : Nat) :
    player.dispatchesBefore (frame + 1) =
      player.dispatchesBefore frame + if player.dispatches frame then 1 else 0 := by
  simp [dispatchesBefore, List.range_succ, List.countP_append, List.countP_singleton]

theorem dispatches_iff {player : Player} {frame : Nat} :
    player.dispatches frame = true ↔ ¬0 < (player.after frame).frameCounter := by
  rw [dispatches, beq_iff_eq, UInt16.lt_iff_toNat_lt, ← UInt16.toNat_inj]
  simp

/-- A run changes the channels and the countdown only, and each channel has had as many frames as
have run the channels. -/
theorem channels_after (config : PlayerConfig) (song : Song) (frame : Nat) :
    ∃ countdown, (started config song).after frame =
      { config, bytecode := song.bytecode, frameCounter := countdown, playing := true,
        channels := song.bases.zipIdx.map fun (base, index) =>
          (Channel.fresh config index base).after song.bytecode
            ((started config song).dispatchesBefore frame) } := by
  induction frame with
  | zero =>
    refine ⟨0, ?_⟩
    show started config song = _
    rw [started_eq]
    rfl
  | succ frame ih =>
    obtain ⟨countdown, here⟩ := ih
    rw [after_succ, dispatchesBefore_succ]
    by_cases dispatching : (started config song).dispatches frame = true
    · have ready := dispatches_iff.mp dispatching
      rw [frame_of_ready ready (by rw [here]), here, if_pos dispatching]
      refine ⟨config.framesPerTick, ?_⟩
      simp [Channel.after_succ, Function.comp_def]
    · have counting : 0 < ((started config song).after frame).frameCounter := by
        by_contra ready
        exact dispatching (dispatches_iff.mpr ready)
      rw [frame_of_counting counting, here, if_neg dispatching]
      exact ⟨_, rfl⟩

theorem tagged_cuesAt_of_dispatches {config : PlayerConfig} {song : Song} {frame : Nat}
    (dispatching : (started config song).dispatches frame = true) :
    ((started config song).cuesAt frame).map Cue.tagged =
      song.bases.zipIdx.flatMap fun (base, index) =>
        (({ base, config := config.track } : Track).eventsUntilHalted song.bytecode
          ((started config song).dispatchesBefore frame)).map (index, ·) := by
  obtain ⟨countdown, here⟩ := channels_after config song frame
  rw [cuesAt, frame_of_ready (dispatches_iff.mp dispatching) (by rw [here]), here]
  simp [List.flatMap_map, List.map_flatMap, Channel.tagged_frame, Channel.fresh]

theorem cuesAt_of_not_dispatches {player : Player} {frame : Nat}
    (counting : ¬player.dispatches frame = true) : player.cuesAt frame = [] := by
  have counting : 0 < (player.after frame).frameCounter := by
    by_contra ready
    exact counting (dispatches_iff.mpr ready)
  rw [cuesAt, frame_of_counting counting]

/-! ### How the frames that run the channels follow each other -/

/-- The countdown goes down by one in each frame. -/
theorem frameCounter_after (player : Player) (frames : Nat)
    (le : frames ≤ player.frameCounter.toNat) :
    (player.after frames).frameCounter.toNat = player.frameCounter.toNat - frames := by
  induction frames with
  | zero => rfl
  | succ frames ih =>
    have here := ih (by omega)
    have counting : 0 < (player.after frames).frameCounter := by
      rw [UInt16.lt_iff_toNat_lt, here, UInt16.toNat_zero]
      omega
    have counted := toNat_sub_one counting
    rw [after_succ, frame_of_counting counting]
    show ((player.after frames).frameCounter - 1).toNat = _
    omega

/-- The frames left out do not run the channels. -/
theorem dispatchesBefore_add {player : Player} {frame : Nat}
    (dispatching : player.dispatches frame = true) (later : Nat)
    (le : later ≤ (player.after (frame + 1)).frameCounter.toNat) :
    player.dispatchesBefore (frame + 1 + later) = player.dispatchesBefore frame + 1 := by
  induction later with
  | zero => rw [Nat.add_zero, dispatchesBefore_succ, if_pos dispatching]
  | succ later ih =>
    have counting : ¬player.dispatches (frame + 1 + later) = true := by
      rw [dispatches_iff, not_not, after_add, UInt16.lt_iff_toNat_lt,
        frameCounter_after _ _ (by omega), UInt16.toNat_zero]
      omega
    rw [← Nat.add_assoc, dispatchesBefore_succ, if_neg counting, ih (by omega)]

/-- However often the channels have run, they run again. -/
theorem exists_dispatches (config : PlayerConfig) (song : Song) (count : Nat) :
    ∃ frame, (started config song).dispatches frame = true ∧
      (started config song).dispatchesBefore frame = count := by
  induction count with
  | zero => exact ⟨0, by rw [dispatches, started_eq]; rfl, rfl⟩
  | succ count ih =>
    obtain ⟨frame, dispatching, before⟩ := ih
    -- the next one follows when the countdown that this one sets is over
    let length := ((started config song).after (frame + 1)).frameCounter.toNat
    refine ⟨frame + 1 + length, ?_, ?_⟩
    · rw [dispatches_iff, after_add, UInt16.lt_iff_toNat_lt, frameCounter_after _ _ (Nat.le_refl _)]
      simp
    · rw [dispatchesBefore_add dispatching _ (Nat.le_refl _), before]

/-- The channels run again and again, and each time the cues are those of the tracks run by
themselves as many times, one track after the other.  No other frame gives a cue. -/
theorem tagged_cuesAt (config : PlayerConfig) (song : Song) :
    let player := started config song
    let track (base : UInt16) : Track := { base, config := config.track }
    (∀ frame, (player.cuesAt frame).map Cue.tagged =
      if player.dispatches frame then
        song.bases.zipIdx.flatMap fun (base, index) =>
          ((track base).eventsUntilHalted song.bytecode (player.dispatchesBefore frame)).map
            (index, ·)
      else []) ∧
    ∀ count, ∃ frame, player.dispatches frame ∧ player.dispatchesBefore frame = count := by
  intro player track
  refine ⟨fun frame => ?_, exists_dispatches config song⟩
  by_cases dispatching : player.dispatches frame = true
  · rw [if_pos dispatching, tagged_cuesAt_of_dispatches dispatching]
  · rw [if_neg dispatching, cuesAt_of_not_dispatches dispatching]
    rfl

end Player

end Sequencer
