import Sequencer.Proofs.Player

/-!
# What holds of a player at any time

Commands come in any order, and all of them share the channels, the countdown, the queue
of cues and the flag that says whether the player plays.

* `Player.reached`, `lastSong` — a new player after any commands, and the song it has been
  given last.
* `Player.Coherent` — the invariant: nothing is pending, and rewound the channels are those
  of the song, which is what they are as long as the player does not play.
  `Coherent.perform` is the step, `coherent_reached` the run.
-/

namespace Sequencer

/-! ## Rewinding channels -/

namespace Channel

@[simp] theorem restart_restart (channel : Channel) : channel.restart.restart = channel.restart :=
  rfl

@[simp] theorem restart_start (channel : Channel) : channel.start.restart = channel.restart :=
  rfl

@[simp] theorem start_restart (channel : Channel) : channel.restart.start = channel.start :=
  rfl

@[simp] theorem restart_parked (index : Nat) (base : UInt16) (packCount : Nat)
    (config : TrackConfig) :
    (parked index base packCount config).restart = parked index base packCount config :=
  rfl

/-- Rewinding undoes whatever a frame has changed. -/
@[simp] theorem restart_frame (channel : Channel) (code : Bytecode) :
    (channel.frame code).1.restart = channel.restart := by
  by_cases halted : channel.track.state.halted = true
  · rw [frame_of_halted halted]
  · rw [frame_of_running (by simpa using halted)]
    simp only [restart, track_foldl_hearing, index_foldl_hearing, packCount_foldl_hearing]
    rfl

end Channel

/-! ## Histories -/

/-- The song that is loaded once a command has been carried out. -/
def PlayerCommand.songAfter (loaded : Song) : PlayerCommand → Song
  | .load song => song
  | .run | .stop | .frame | .setFramesPerTick _ => loaded

/-- The song that commands have loaded last.  A new player has an empty one. -/
def lastSong (commands : List PlayerCommand) : Song :=
  commands.foldl PlayerCommand.songAfter {}

namespace Player

/-- A new player after commands. -/
def reached (config : PlayerConfig) (commands : List PlayerCommand) : Player :=
  commands.foldl (fun player command => (player.perform command).1) { config }

/-! ## The invariant -/

/-- Whatever a player has gone through, it is ready to start the song from the top. -/
structure Coherent (song : Song) (player : Player) : Prop where
  nothingPending : player.pending = []
  bytecode : player.bytecode = song.bytecode
  rewound : player.channels.map Channel.restart = channelsOf player.config song
  parked : player.playing = false → player.channels = channelsOf player.config song

variable {song : Song} {player : Player}

theorem map_restart_channelsOf (config : PlayerConfig) (song : Song) :
    (channelsOf config song).map Channel.restart = channelsOf config song := by
  simp [channelsOf, Function.comp_def]

theorem map_restart_map_start (channels : List Channel) :
    (channels.map Channel.start).map Channel.restart = channels.map Channel.restart := by
  simp [Function.comp_def]

theorem coherent_new (config : PlayerConfig) : Coherent {} { config } :=
  ⟨rfl, rfl, rfl, fun _ => rfl⟩

theorem Coherent.halted (coherent : Coherent song player) (stopped : player.playing = false)
    {channel : Channel} (member : channel ∈ player.channels) :
    channel.track.state.halted = true := by
  rw [coherent.parked stopped] at member
  exact halted_of_mem_channelsOf member

/-- A song that is loaded leaves nothing of what was there before. -/
theorem coherent_load (player : Player) (next : Song) : Coherent next (player.load next) := by
  cases playing : player.playing with
  | true =>
    rw [load_of_playing playing]
    refine ⟨rfl, rfl, ?_, fun stopped => absurd stopped (by simp [started, Player.run])⟩
    exact (map_restart_map_start _).trans (map_restart_channelsOf _ _)
  | false =>
    rw [load_of_stopped playing]
    exact ⟨rfl, rfl, map_restart_channelsOf _ _, fun _ => rfl⟩

theorem Coherent.run (coherent : Coherent song player) : Coherent song player.run := by
  refine ⟨coherent.nothingPending, coherent.bytecode, ?_, fun stopped => ?_⟩
  · exact (map_restart_map_start _).trans coherent.rewound
  · exact absurd stopped (by simp [Player.run])

theorem Coherent.stop (coherent : Coherent song player) : Coherent song player.stop := by
  have parked : player.stop.channels = channelsOf player.stop.config song := coherent.rewound
  refine ⟨coherent.nothingPending, coherent.bytecode, ?_, fun _ => parked⟩
  rw [parked, map_restart_channelsOf]

theorem Coherent.frame (coherent : Coherent song player) : Coherent song player.frame.1 := by
  obtain ⟨nothing, bytecode, rewound, parked⟩ := coherent
  by_cases counting : 0 < player.frameCounter
  · rw [frame_of_counting counting]
    exact ⟨nothing, bytecode, rewound, parked⟩
  · cases playing : player.playing with
    | false =>
      -- the frame reaches the channels, but all of them are parked
      rw [frame_of_halted nothing fun channel member => Coherent.halted
        ⟨nothing, bytecode, rewound, parked⟩ playing member]
      exact ⟨nothing, bytecode, rewound, parked⟩
    | true =>
      rw [frame_of_ready counting nothing]
      refine ⟨nothing, bytecode, ?_, fun stopped => ?_⟩
      · simpa [Function.comp_def] using rewound
      · exact absurd (playing.symm.trans stopped) (by simp)

/-- The configuration of channels does not hang on the number of frames that are left out. -/
theorem Coherent.setFramesPerTick (coherent : Coherent song player) (frames : UInt16) :
    Coherent song (player.setFramesPerTick frames) :=
  ⟨coherent.nothingPending, coherent.bytecode, coherent.rewound, coherent.parked⟩

theorem Coherent.perform (coherent : Coherent song player) (command : PlayerCommand) :
    Coherent (command.songAfter song) (player.perform command).1 := by
  cases command with
  | load next => exact coherent_load player next
  | run => exact coherent.run
  | stop => exact coherent.stop
  | frame => exact coherent.frame
  | setFramesPerTick frames => exact coherent.setFramesPerTick frames

theorem coherent_reached (config : PlayerConfig) (commands : List PlayerCommand) :
    Coherent (lastSong commands) (reached config commands) := by
  -- a history can go on from any player, so the invariant is carried from any song
  have general : ∀ (song : Song) (player : Player), Coherent song player →
      Coherent (commands.foldl PlayerCommand.songAfter song)
        (commands.foldl (fun player command => (player.perform command).1) player) := by
    induction commands with
    | nil => exact fun _ _ coherent => coherent
    | cons command commands ih => exact fun _ _ coherent => ih _ _ (coherent.perform command)
  exact general {} { config } (coherent_new config)

/-! ## What it says about the channels -/

theorem Coherent.length_channels (coherent : Coherent song player) :
    player.channels.length = song.bases.length := by
  have same := congrArg List.length coherent.rewound
  simpa [channelsOf] using same

/-- Each channel plays the program at its own place in the song. -/
theorem Coherent.place (coherent : Coherent song player) {index : Nat} {channel : Channel}
    (listed : player.channels[index]? = some channel) :
    channel.index = index ∧ song.bases[index]? = some channel.track.base := by
  -- rewinding a channel changes neither its index nor its base
  have same := congrArg (·[index]?) coherent.rewound
  simp only [channelsOf, List.getElem?_map, List.getElem?_zipIdx, listed, Option.map_some] at same
  obtain ⟨entry, found, rewound⟩ := Option.map_eq_some_iff.mp same.symm
  obtain ⟨base, based, rfl⟩ := Option.map_eq_some_iff.mp found
  have index_eq := congrArg Channel.index rewound
  have base_eq := congrArg (·.track.base) rewound
  exact ⟨index_eq.symm.trans (Nat.zero_add index), based.trans (congrArg some base_eq)⟩

/-- A channel of a player that does not play waits at the top of its program. -/
theorem Coherent.state_of_stopped (coherent : Coherent song player)
    (stopped : player.playing = false) {channel : Channel} (member : channel ∈ player.channels) :
    channel.track.state = { halted := true } ∧ channel.selected = 0 := by
  rw [coherent.parked stopped] at member
  obtain ⟨entry, -, rfl⟩ := List.mem_map.mp member
  exact ⟨rfl, rfl⟩

theorem Coherent.frame_of_stopped (coherent : Coherent song player)
    (stopped : player.playing = false) : player.frame.2 = [] := by
  rw [frame_of_halted coherent.nothingPending fun channel member => coherent.halted stopped member]

/-- No cue is older than the frame that hands it out. -/
theorem Coherent.exists_of_mem_frame (coherent : Coherent song player) {cue : Cue}
    (member : cue ∈ player.frame.2) :
    ∃ channel ∈ player.channels, cue ∈ (channel.frame song.bytecode).2 := by
  by_cases counting : 0 < player.frameCounter
  · rw [frame_of_counting counting] at member
    cases member
  · rw [frame_of_ready counting coherent.nothingPending, coherent.bytecode] at member
    exact List.mem_flatMap.mp member

end Player

end Sequencer
