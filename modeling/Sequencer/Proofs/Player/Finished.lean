import Mathlib.Data.List.Induction
import Sequencer.Proofs.Player.Invariant
import Sequencer.Proofs.Track.Steps

/-!
# When a player has finished

A player has finished once all its channels are halted.  The flag that says so of a channel
is set when the channel is parked as well, but as long as the player plays it goes with what
the host has heard: a channel is halted just if it has asked to halt since it was started.

* `Player.heardSinceStart` — the cues handed out since then.
* `Player.Attested` — flags and cues agree.  `Coherent.attested_perform` is the step,
  `attested_reached` the run.
* `Player.reached_append_of_finished` — a player that has finished changes its countdown
  only.
* `Player.finished_iff_all_halted` — what it means to have finished.
-/

namespace Sequencer

/-! ## Commands -/

/-- Whether a command starts the channels, of a player that plays or does not. -/
def PlayerCommand.starts (playing : Bool) : PlayerCommand → Bool
  | .run => true
  | .load _ => playing
  | .stop | .frame | .setFramesPerTick _ => false

/-- Whether a command lets the channels go on. -/
def PlayerCommand.continues : PlayerCommand → Bool
  | .frame | .setFramesPerTick _ => true
  | .load _ | .run | .stop => false

namespace Player

/-- Carries out a command and takes down the cues.  A start begins a new record. -/
def record (state : Player × List Cue) (command : PlayerCommand) : Player × List Cue :=
  let (next, cues) := state.1.perform command
  (next, if command.starts state.1.playing then [] else state.2 ++ cues)

/-- The cues that a new player has handed out since its channels were last started. -/
def heardSinceStart (config : PlayerConfig) (commands : List PlayerCommand) : List Cue :=
  (commands.foldl record ({ config }, [])).2

theorem reached_concat (config : PlayerConfig) (commands : List PlayerCommand)
    (command : PlayerCommand) :
    reached config (commands ++ [command]) = ((reached config commands).perform command).1 := by
  simp [reached]

theorem fst_foldl_record (config : PlayerConfig) (commands : List PlayerCommand) :
    (commands.foldl record ({ config }, [])).1 = reached config commands := by
  induction commands using List.reverseRecOn with
  | nil => rfl
  | append_singleton commands command ih =>
    rw [List.foldl_append, reached_concat, ← ih]
    rfl

theorem heardSinceStart_concat (config : PlayerConfig) (commands : List PlayerCommand)
    (command : PlayerCommand) :
    heardSinceStart config (commands ++ [command]) =
      if command.starts (reached config commands).playing then []
      else heardSinceStart config commands ++ ((reached config commands).perform command).2 := by
  rw [heardSinceStart, List.foldl_append, ← fst_foldl_record]
  rfl

end Player

/-! ## Channels -/

/-- A frame leaves a channel halted if it was, or if it hands out a cue to halt. -/
theorem Channel.halted_frame_iff (channel : Channel) (code : Bytecode) :
    (channel.frame code).1.track.state.halted = true ↔
      channel.track.state.halted = true ∨ ∃ cue ∈ (channel.frame code).2, cue.event = .halt := by
  by_cases halted : channel.track.state.halted = true
  · simp [frame_of_halted halted, halted]
  · have running : channel.track.state.halted = false := by simpa using halted
    have raised : Event.halt ∈ (channel.track.dispatch code).2 ↔
        ∃ cue ∈ (channel.frame code).2, cue.event = .halt := by
      rw [frame_of_running running]
      conv_lhs => rw [← map_event_cuesOf { channel with track := (channel.track.dispatch code).1 }
        (channel.track.dispatch code).2]
      exact List.mem_map
    rw [← raised, frame_of_running running, track_foldl_hearing]
    simp [running, Track.dispatch, TrackState.halted_dispatch_iff _ _ running]

namespace Player

variable {song : Song} {player : Player} {heard : List Cue}

/-- Whether there is a cue from a channel to halt. -/
def HaltHeard (heard : List Cue) (index : Nat) : Prop :=
  ∃ cue ∈ heard, cue.channel = index ∧ cue.event = .halt

/-- While a player plays, a channel is halted just if it has been heard to halt. -/
def Attested (player : Player) (heard : List Cue) : Prop :=
  player.playing = true → ∀ channel ∈ player.channels,
    (channel.track.state.halted = true ↔ HaltHeard heard channel.index)

theorem haltHeard_append {first second : List Cue} {index : Nat} :
    HaltHeard (first ++ second) index ↔ HaltHeard first index ∨ HaltHeard second index := by
  simp only [HaltHeard, List.mem_append, or_and_right, exists_or]

/-- A channel that has just been started is not halted, and has not been heard yet. -/
theorem attested_run (player : Player) : Attested player.run [] := by
  intro _ channel member
  obtain ⟨parked, -, rfl⟩ := List.mem_map.mp member
  simp [HaltHeard, Channel.start, Track.resume]

/-- No two channels have the same number. -/
theorem Coherent.eq_of_index_eq (coherent : Coherent song player) {channel other : Channel}
    (member : channel ∈ player.channels) (member' : other ∈ player.channels)
    (same : channel.index = other.index) : channel = other := by
  obtain ⟨place, listed⟩ := List.mem_iff_getElem?.mp member
  obtain ⟨place', listed'⟩ := List.mem_iff_getElem?.mp member'
  have index := (coherent.place listed).1
  have index' := (coherent.place listed').1
  rw [← index, same, index', listed'] at listed
  exact (Option.some.inj listed).symm

/-- The channels have the numbers below their count. -/
theorem Coherent.forall_index_iff (coherent : Coherent song player) {ok : Nat → Prop} :
    (∀ channel ∈ player.channels, ok channel.index) ↔
      ∀ index < player.channels.length, ok index := by
  constructor
  · intro all index inside
    rw [← (coherent.place (List.getElem?_eq_getElem inside)).1]
    exact all _ (List.getElem_mem inside)
  · intro all channel member
    obtain ⟨index, listed⟩ := List.mem_iff_getElem?.mp member
    obtain ⟨inside, -⟩ := List.getElem?_eq_some_iff.mp listed
    rw [(coherent.place listed).1]
    exact all index inside

/-- The cues of a frame that are a channel's are those that the channel hands out. -/
theorem Coherent.haltHeard_frame_iff (coherent : Coherent song player) {channel : Channel}
    (member : channel ∈ player.channels) (code : Bytecode) :
    HaltHeard (player.channels.flatMap fun channel => (channel.frame code).2) channel.index ↔
      ∃ cue ∈ (channel.frame code).2, cue.event = .halt := by
  constructor
  · rintro ⟨cue, raised, tag, halt⟩
    obtain ⟨other, member', raised⟩ := List.mem_flatMap.mp raised
    obtain rfl := coherent.eq_of_index_eq member' member
      ((Channel.channel_of_mem_frame raised).symm.trans tag)
    exact ⟨cue, raised, halt⟩
  · rintro ⟨cue, raised, halt⟩
    exact ⟨cue, List.mem_flatMap.mpr ⟨channel, member, raised⟩,
      Channel.channel_of_mem_frame raised, halt⟩

theorem Coherent.attested_frame (coherent : Coherent song player)
    (attested : Attested player heard) :
    Attested player.frame.1 (heard ++ player.frame.2) := by
  by_cases counting : 0 < player.frameCounter
  · rw [frame_of_counting counting, List.append_nil]
    exact attested
  · rw [frame_of_ready counting coherent.nothingPending]
    intro playing _ moved
    obtain ⟨channel, member, rfl⟩ := List.mem_map.mp moved
    rw [Channel.halted_frame_iff, Channel.index_frame, haltHeard_append,
      attested playing channel member, coherent.haltHeard_frame_iff member]

/-- What a command leaves is attested by the new record. -/
theorem Coherent.attested_perform (coherent : Coherent song player)
    (attested : Attested player heard) (command : PlayerCommand) :
    Attested (player.perform command).1
      (if command.starts player.playing then [] else heard ++ (player.perform command).2) := by
  cases command with
  | load next =>
    cases playing : player.playing with
    | true =>
      simp only [Player.perform, load_of_playing playing, PlayerCommand.starts, if_true]
      exact attested_run _
    | false =>
      simp only [Player.perform, load_of_stopped playing]
      exact fun plays => absurd (playing.symm.trans plays) (by simp)
  | run => exact attested_run player
  | stop => exact fun plays => absurd plays (by simp [Player.perform, Player.stop])
  | frame => exact coherent.attested_frame attested
  | setFramesPerTick frames =>
    simp only [Player.perform, PlayerCommand.starts, List.append_nil]
    exact attested

theorem attested_reached (config : PlayerConfig) (commands : List PlayerCommand) :
    Attested (reached config commands) (heardSinceStart config commands) := by
  induction commands using List.reverseRecOn with
  | nil => exact fun plays => absurd plays (by simp [reached])
  | append_singleton commands command ih =>
    rw [reached_concat, heardSinceStart_concat]
    exact (coherent_reached config commands).attested_perform ih command

/-! ## Having finished -/

theorem finished_iff : player.finished = true ↔
    player.playing = true ∧ ∀ channel ∈ player.channels, channel.track.state.halted = true := by
  simp [finished]

/-- As long as nothing starts or parks the channels, a player that has finished changes in its
countdown and in the length of it only. -/
theorem Coherent.perform_of_finished (coherent : Coherent song player)
    (finished : player.finished = true) {command : PlayerCommand}
    (continues : command.continues = true) :
    (player.perform command).1.finished = true ∧
      (player.perform command).1.channels = player.channels ∧ (player.perform command).2 = [] := by
  obtain ⟨-, halted⟩ := finished_iff.mp finished
  cases command with
  | load _ | run | stop => cases continues
  | frame =>
    rw [Player.perform, frame_of_halted coherent.nothingPending halted]
    exact ⟨finished, rfl, rfl⟩
  | setFramesPerTick frames => exact ⟨finished, rfl, rfl⟩

theorem reached_append_of_finished {config : PlayerConfig} {history : List PlayerCommand}
    (finished : (reached config history).finished = true) {later : List PlayerCommand}
    (continues : ∀ command ∈ later, command.continues = true) :
    (reached config (history ++ later)).finished = true ∧
      (reached config (history ++ later)).channels = (reached config history).channels := by
  induction later using List.reverseRecOn with
  | nil => simpa using finished
  | append_singleton later command ih =>
    obtain ⟨still, same⟩ := ih fun other member => continues other (by simp [member])
    obtain ⟨still, same', -⟩ := (coherent_reached config (history ++ later)).perform_of_finished
      still (continues command (by simp))
    rw [← List.append_assoc, reached_concat]
    exact ⟨still, same'.trans same⟩

/-- While a player plays, a channel is halted just if it has handed out a cue to halt since the
channels were last started.  So a player has finished when it plays and each of its channels has;
from then on there are no more cues and no channel changes, until a command starts or parks
the channels. -/
theorem finished_iff_all_halted (config : PlayerConfig) (history : List PlayerCommand) :
    let player := reached config history
    let heard := heardSinceStart config history
    (player.playing = true → ∀ channel ∈ player.channels,
      (channel.track.state.halted = true ↔ HaltHeard heard channel.index)) ∧
    (player.finished = true ↔ player.playing = true ∧
      ∀ index < player.channels.length, HaltHeard heard index) ∧
    (player.finished = true → ∀ later, (∀ command ∈ later, command.continues = true) →
      (reached config (history ++ later)).finished = true ∧
      (reached config (history ++ later)).channels = player.channels ∧
      (reached config (history ++ later)).frame.2 = []) := by
  intro player heard
  have coherent := coherent_reached config history
  have attested : Attested player heard := attested_reached config history
  refine ⟨attested, ?_, fun finished later continues => ?_⟩
  · rw [finished_iff, ← coherent.forall_index_iff]
    exact and_congr_right fun playing => forall₂_congr (attested playing)
  · obtain ⟨still, same⟩ := reached_append_of_finished finished continues
    have goesOn : PlayerCommand.frame.continues = true := rfl
    obtain ⟨-, -, silent⟩ :=
      (coherent_reached config (history ++ later)).perform_of_finished still goesOn
    exact ⟨still, same, silent⟩

/-- Two programs: one halts and plays a note in the same phase, the other plays that note and then
halts. -/
def haltingSong : Song :=
  ⟨#[0xFF, 0xE7, 60, 0xFF], [0, 1]⟩

/-- Leaves a player that has just finished the song. -/
def haltingHistory : List PlayerCommand :=
  [.load haltingSong, .frame, .run, .frame, .frame, .frame]

theorem finished_haltingHistory :
    (reached {} haltingHistory).playing = true ∧
    (∀ channel ∈ (reached {} haltingHistory).channels,
      (channel.track.state.halted = true ↔
        HaltHeard (heardSinceStart {} haltingHistory) channel.index)) ∧
    (reached {} haltingHistory).finished = true ∧
    (∀ index < 2, HaltHeard (heardSinceStart {} haltingHistory) index) ∧
    (reached {} (haltingHistory ++ [.setFramesPerTick 0, .frame, .frame])).finished = true ∧
    (reached {} (haltingHistory ++ [.setFramesPerTick 0, .frame, .frame])).channels =
      (reached {} haltingHistory).channels ∧
    (reached {} (haltingHistory ++ [.setFramesPerTick 0, .frame, .frame])).frame.2 = [] := by
  have playing : (reached {} haltingHistory).playing = true := by decide
  have finished : (reached {} haltingHistory).finished = true := by decide
  obtain ⟨attested, all, still⟩ := finished_iff_all_halted {} haltingHistory
  exact ⟨playing, attested playing, finished, (all.mp finished).2,
    still finished [.setFramesPerTick 0, .frame, .frame] (by decide)⟩

end Player

end Sequencer
