import Sequencer.Proofs.Player.Invariant

/-!
# A restart forgets everything

What a player has gone through could be left in the states of its tracks, in the
instruments its channels have selected, in the countdown and in the queue of cues.  None
of it outlives a restart: a player that is told to run, or is given a song while it plays,
goes on like a new one.

* `Player.view`, `Player.watch` — what a host can see of a player, at one moment and
  from then on.
* `Player.Coherent.run_eq_started` — a player that is told to run is a new one in every field.
* `Player.Dormant` — players that do not play may differ in their countdown, but nobody sees it.
-/

namespace Sequencer

/-- What a host can see of a player at a moment. -/
structure PlayerView where
  states : List TrackState
  packs : List Nat
  playing : Bool
  finished : Bool
deriving Repr, DecidableEq, Inhabited

namespace Player

def view (player : Player) : PlayerView where
  states := player.channels.map (·.track.state)
  packs := player.channels.map Channel.pack
  playing := player.playing
  finished := player.finished

/-- What a host sees while it carries out commands: for each of them the cues handed out, and the
view that it leaves. -/
def watch (player : Player) : List PlayerCommand → List (List Cue × PlayerView)
  | [] => []
  | command :: later =>
    let (next, cues) := player.perform command
    (cues, next.view) :: next.watch later

theorem watch_cons (player : Player) (command : PlayerCommand) (later : List PlayerCommand) :
    player.watch (command :: later) =
      ((player.perform command).2, (player.perform command).1.view) ::
        (player.perform command).1.watch later :=
  rfl

/-! ## Being told to run -/

theorem Coherent.run_eq_started {song : Song} {player : Player} (coherent : Coherent song player) :
    player.run = started player.config song := by
  have channels : player.channels.map Channel.start =
      (channelsOf player.config song).map Channel.start := by
    rw [← coherent.rewound]
    simp [Function.comp_def]
  exact run_of_loaded coherent.nothingPending coherent.bytecode channels

/-- Whatever it has gone through, a player that is told to run goes on like a new one that is given
the last song and told to run.  So does a player that is given a song while it plays. -/
theorem restart_forgets_history (config : PlayerConfig) (history later : List PlayerCommand) :
    let player := reached config history
    (player.run.view = (started player.config (lastSong history)).view ∧
      player.run.watch later = (started player.config (lastSong history)).watch later) ∧
    (player.playing = true → ∀ song,
      (player.load song).view = (started player.config song).view ∧
      (player.load song).watch later = (started player.config song).watch later) := by
  intro player
  refine ⟨?_, fun playing song => ?_⟩
  · rw [(coherent_reached config history).run_eq_started]
    exact ⟨rfl, rfl⟩
  · rw [load_of_playing playing]
    exact ⟨rfl, rfl⟩

/-- Two programs: one selects an instrument and plays in a loop, the other waits and plays. -/
def busySong : Song :=
  ⟨#[0xE9, 8, 0xE7, 60, 0xFE, 0, 0, 0xEB, 2, 0xE7, 61, 0xFF], [0, 7]⟩

/-- Leaves a player in the middle of the song, with a countdown under way. -/
def busyHistory : List PlayerCommand :=
  [.load busySong, .run, .frame, .setFramesPerTick 2, .frame, .frame]

theorem restart_of_busy :
    (reached {} busyHistory).playing = true ∧
    (reached {} busyHistory).view ≠ (started { framesPerTick := 2 } busySong).view ∧
    (reached {} busyHistory).run.view = (started { framesPerTick := 2 } busySong).view ∧
    (reached {} busyHistory).run.watch [.frame, .stop, .run, .frame] =
      (started { framesPerTick := 2 } busySong).watch [.frame, .stop, .run, .frame] ∧
    ((reached {} busyHistory).load ⟨#[0xE7, 1, 0xFF], [0]⟩).watch [.frame] =
      (started { framesPerTick := 2 } ⟨#[0xE7, 1, 0xFF], [0]⟩).watch [.frame] := by
  have playing : (reached {} busyHistory).playing = true := by decide
  have run := (restart_forgets_history {} busyHistory [.frame, .stop, .run, .frame]).1
  have load := (restart_forgets_history {} busyHistory [.frame]).2 playing
  exact ⟨playing, by decide, run.1, run.2, (load ⟨#[0xE7, 1, 0xFF], [0]⟩).2⟩

/-! ## Being given a song while stopped -/

/-- Whether two players do not play and differ in their countdown only. -/
structure Dormant (first second : Player) : Prop where
  stopped : first.playing = false
  nothingPending : first.pending = []
  halted : ∀ channel ∈ first.channels, channel.track.state.halted = true
  same : ∃ countdown, second = { first with frameCounter := countdown }

theorem Dormant.view_eq {first second : Player} (dormant : Dormant first second) :
    first.view = second.view := by
  obtain ⟨-, -, -, countdown, rfl⟩ := dormant
  rfl

/-- The first command to run makes dormant players equal.  Until then their frames are silent. -/
theorem Dormant.perform {first second : Player} (dormant : Dormant first second)
    (command : PlayerCommand) :
    (first.perform command).2 = (second.perform command).2 ∧
      ((first.perform command).1 = (second.perform command).1 ∨
        Dormant (first.perform command).1 (second.perform command).1) := by
  obtain ⟨stopped, nothing, halted, countdown, rfl⟩ := dormant
  cases command with
  | load song =>
    refine ⟨rfl, .inr ?_⟩
    simp only [Player.perform]
    rw [load_of_stopped stopped, load_of_stopped (by exact stopped)]
    exact ⟨stopped, rfl, fun channel => halted_of_mem_channelsOf, countdown, rfl⟩
  -- the countdown is set anew, and it was all they differed in
  | run => exact ⟨rfl, .inl rfl⟩
  | stop =>
    refine ⟨rfl, .inr ⟨rfl, nothing, ?_, countdown, rfl⟩⟩
    exact List.forall_mem_map.mpr fun channel _ => rfl
  | frame =>
    simp only [Player.perform]
    rw [frame_of_halted nothing halted, frame_of_halted (by exact nothing) (by exact halted)]
    exact ⟨rfl, .inr ⟨stopped, nothing, halted, _, rfl⟩⟩
  | setFramesPerTick frames =>
    exact ⟨rfl, .inr ⟨stopped, nothing, halted, countdown, rfl⟩⟩

theorem Dormant.watch {first second : Player} (dormant : Dormant first second)
    (later : List PlayerCommand) : first.watch later = second.watch later := by
  induction later generalizing first second with
  | nil => rfl
  | cons command later ih =>
    obtain ⟨cues, equal | dormant⟩ := dormant.perform command
    · rw [watch_cons, watch_cons, cues, equal]
    · rw [watch_cons, watch_cons, cues, dormant.view_eq, ih dormant]

/-- A player that is given a song goes on like a new one that plays just if it does. -/
theorem watch_load (player : Player) (next : Song) (later : List PlayerCommand) :
    (player.load next).watch later =
      (({ config := player.config, playing := player.playing } : Player).load next).watch later := by
  cases playing : player.playing with
  | true => rw [load_of_playing playing, load_of_playing rfl]
  | false =>
    have halted : ∀ channel ∈ channelsOf player.config next, channel.track.state.halted = true :=
      fun channel => halted_of_mem_channelsOf
    -- the countdown of the old song goes on, so the two are not equal yet
    have dormant : Dormant (player.load next)
        (({ config := player.config, playing := false } : Player).load next) := by
      rw [load_of_stopped playing, load_of_stopped rfl]
      exact ⟨playing, rfl, halted, 0, by simp only [playing]⟩
    exact dormant.watch later

/-- Whatever has been done to a player, no cue is pending, and each program of the last song has the
channel at its place.  If the player does not play, its channels are parked, and a frame of it gives
no cue.  All cues of a frame are raised in it by the last song, and of a song that another one
replaces nothing is seen after that. -/
theorem invariant_of_history (config : PlayerConfig) (history : List PlayerCommand) :
    let player := reached config history
    let song := lastSong history
    player.pending = [] ∧
    player.channels.length = song.bases.length ∧
    (∀ (index : Nat) (channel : Channel), player.channels[index]? = some channel →
      channel.index = index ∧ song.bases[index]? = some channel.track.base) ∧
    (player.playing = false →
      (∀ channel ∈ player.channels,
        channel.track.state = { halted := true } ∧ channel.selected = 0) ∧
      player.frame.2 = []) ∧
    (∀ cue ∈ player.frame.2, ∃ channel ∈ player.channels,
      cue ∈ (channel.frame song.bytecode).2) ∧
    ∀ next later, (player.load next).watch later =
      (({ config := player.config, playing := player.playing } : Player).load next).watch
        later := by
  intro player song
  have coherent : Coherent song player := coherent_reached config history
  refine ⟨coherent.nothingPending, coherent.length_channels, fun _ _ => coherent.place,
    fun stopped => ⟨fun _ => coherent.state_of_stopped stopped, coherent.frame_of_stopped stopped⟩,
    fun _ => coherent.exists_of_mem_frame, watch_load player⟩

/-- The channels of a song that has been stopped are parked, and the next song does not hear of
the instrument that was selected. -/
theorem invariant_of_stopped :
    (reached {} (busyHistory ++ [.stop])).playing = false ∧
    (reached {} (busyHistory ++ [.stop])).channels.length = 2 ∧
    (∀ channel ∈ (reached {} (busyHistory ++ [.stop])).channels,
      channel.track.state = { halted := true } ∧ channel.selected = 0) ∧
    (reached {} (busyHistory ++ [.stop])).frame.2 = [] ∧
    ((reached {} (busyHistory ++ [.stop])).load ⟨#[0xE7, 1, 0xFF], [0]⟩).watch [.run, .frame] =
      (({ config := { framesPerTick := 2 } } : Player).load ⟨#[0xE7, 1, 0xFF], [0]⟩).watch
        [.run, .frame] := by
  have stopped : (reached {} (busyHistory ++ [.stop])).playing = false := by decide
  obtain ⟨-, length, -, parked, -, load⟩ := invariant_of_history {} (busyHistory ++ [.stop])
  exact ⟨stopped, length, (parked stopped).1, (parked stopped).2, load _ _⟩

end Player

end Sequencer
