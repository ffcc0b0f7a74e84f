import Sequencer.Player
import Sequencer.Proofs.Channel

/-!
# The frames of a player

* `Player.started`, `Player.after`, `Player.cuesAt` — a song played from its first
  frame.
* `Player.frame_of_counting`, `Player.frame_of_ready` — the two things a frame can do.
  `Player.frame_of_halted` is about channels that have nothing to play.
* `Player.load_of_playing`, `Player.load_of_stopped` — the two things a load can do.
  `Player.run_of_loaded` is about a player that already has the song.
* `Player.channels_started` — the channels a song is started with.
-/

namespace Sequencer

/-- A channel that has just been started, of a song that has the base at its index. -/
def Channel.fresh (config : PlayerConfig) (index : Nat) (base : UInt16) : Channel :=
  { index, packCount := config.packCount, track := { base, config := config.track } }

namespace Player

/-- A new player that was given a song and told to run. -/
def started (config : PlayerConfig) (song : Song) : Player :=
  (({ config } : Player).load song).run

/-- The player after a number of frames. -/
def after : Nat → Player → Player
  | 0, player => player
  | frames + 1, player => after frames player.frame.1

/-- The cues of the frame with that number, counted from zero. -/
def cuesAt (player : Player) (frame : Nat) : List Cue :=
  (player.after frame).frame.2

theorem after_succ (player : Player) (frames : Nat) :
    player.after (frames + 1) = (player.after frames).frame.1 := by
  induction frames generalizing player with
  | zero => rfl
  | succ frames ih => exact ih player.frame.1

theorem after_add (player : Player) (first second : Nat) :
    player.after (first + second) = (player.after first).after second := by
  induction first generalizing player with
  | zero => rw [Nat.zero_add]; rfl
  | succ first ih => rw [Nat.succ_add]; exact ih player.frame.1

theorem frame_of_counting {player : Player} (counting : 0 < player.frameCounter) :
    player.frame = ({ player with frameCounter := player.frameCounter - 1 }, []) := by
  rw [frame, if_pos counting]

theorem frame_of_ready {player : Player} (ready : ¬0 < player.frameCounter)
    (nothing : player.pending = []) :
    player.frame =
      ({ player with
          frameCounter := player.config.framesPerTick
          channels := player.channels.map fun channel => (channel.frame player.bytecode).1 },
        player.channels.flatMap fun channel => (channel.frame player.bytecode).2) := by
  simp [player.frame_eq ready, nothing]

theorem frame_of_halted {player : Player} (nothing : player.pending = [])
    (halted : ∀ channel ∈ player.channels, channel.track.state.halted = true) :
    player.frame =
      ({ player with
          frameCounter :=
            if 0 < player.frameCounter then player.frameCounter - 1
            else player.config.framesPerTick },
        []) := by
  by_cases counting : 0 < player.frameCounter
  · rw [frame_of_counting counting, if_pos counting]
  · have still : ∀ channel ∈ player.channels,
        channel.frame player.bytecode = (channel, []) := fun channel member =>
      Channel.frame_of_halted (halted channel member) player.bytecode
    have same : (player.channels.map fun channel => (channel.frame player.bytecode).1) =
        player.channels :=
      (List.map_congr_left fun channel member => congrArg Prod.fst (still channel member)).trans
        (List.map_id _)
    have none : (player.channels.flatMap fun channel => (channel.frame player.bytecode).2) = [] :=
      List.flatMap_eq_nil_iff.mpr fun channel member => by rw [still channel member]
    rw [frame_of_ready counting nothing, same, none, if_neg counting]

theorem halted_of_mem_channelsOf {config : PlayerConfig} {song : Song} {channel : Channel}
    (member : channel ∈ channelsOf config song) : channel.track.state.halted = true := by
  obtain ⟨entry, -, rfl⟩ := List.mem_map.mp member
  rfl

/-- A player that plays starts the song, whatever it was playing. -/
theorem load_of_playing {player : Player} (playing : player.playing = true) (song : Song) :
    player.load song = started player.config song := by
  simp [load, drain, playing, run, started]

theorem load_of_stopped {player : Player} (stopped : player.playing = false) (song : Song) :
    player.load song =
      { player with
        bytecode := song.bytecode
        channels := channelsOf player.config song
        pending := [] } := by
  simp [load, drain, stopped]

/-- A player that has the song and is told to run starts it. -/
theorem run_of_loaded {player : Player} {song : Song} (nothing : player.pending = [])
    (bytecode : player.bytecode = song.bytecode)
    (channels : player.channels.map Channel.start =
      (channelsOf player.config song).map Channel.start) :
    player.run = started player.config song := by
  simp [run, started, load, drain, nothing, bytecode, channels]

theorem started_eq (config : PlayerConfig) (song : Song) :
    started config song =
      { config, bytecode := song.bytecode, playing := true,
        channels := song.bases.zipIdx.map fun (base, index) => Channel.fresh config index base } := by
  simp [started, load, drain, run, channelsOf, Channel.parked, Channel.start, Channel.restart,
    Channel.fresh, Track.reset, Track.halt, Track.resume, Function.comp_def]

theorem channels_started (config : PlayerConfig) (song : Song) :
    (started config song).channels =
      song.bases.zipIdx.map fun (base, index) => Channel.fresh config index base := by
  rw [started_eq]

end Player

end Sequencer
