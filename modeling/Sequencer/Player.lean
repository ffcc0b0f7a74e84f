import Sequencer.Channel
import Sequencer.Song

/-!
# The player

Plays a song frame by frame, with one channel for each of its programs.

* `Player.load`, `Player.run`, `Player.stop`, `Player.setFramesPerTick` — what a
  host can do between frames.
* `Player.advance`, `Player.drain` — giving each channel a frame, which pushes its cues
  onto a queue, and handing out what is in the queue.
* `Player.frame` — one frame of the host.  The channels run only when the
  countdown is over, which is then set again.
* `Player.perform` — the same as one function of a command.
-/

namespace Sequencer

structure PlayerConfig where
  /-- Frames left out after each one that runs the channels. -/
  framesPerTick : UInt16 := 1
  /-- The number of sample packs instruments are folded onto. -/
  packCount : Nat := 6
  track : TrackConfig := {}
deriving Repr, DecidableEq, Inhabited

structure Player where
  config : PlayerConfig := {}
  bytecode : Bytecode := #[]
  channels : List Channel := []
  /-- Frames left before the channels run. -/
  frameCounter : UInt16 := 0
  playing : Bool := false
  /-- The queue of cues that channels have raised and the host has not been handed. -/
  pending : List Cue := []
deriving Repr, DecidableEq, Inhabited

/-- Gives each channel a frame, the first one first.  Every channel pushes its cues onto the same
queue. -/
def Channel.frameAll (code : Bytecode) : List Channel → List Cue → List Channel × List Cue
  | [], queue => ([], queue)
  | channel :: rest, queue =>
    let (next, cues) := channel.frame code
    let (others, queue) := frameAll code rest (queue ++ cues)
    (next :: others, queue)

namespace Player

/-- Starts every channel from the top. -/
def run (player : Player) : Player :=
  { player with
    playing := true
    frameCounter := 0
    channels := player.channels.map Channel.start }

def stop (player : Player) : Player :=
  { player with playing := false, channels := player.channels.map Channel.restart }

/-- One parked channel for each program of a song. -/
def channelsOf (config : PlayerConfig) (song : Song) : List Channel :=
  song.bases.zipIdx.map fun (base, index) =>
    .parked index base config.packCount config.track

/-- Gives each channel a frame and starts the countdown again. -/
def advance (player : Player) : Player :=
  let (channels, pending) := Channel.frameAll player.bytecode player.channels player.pending
  { player with frameCounter := player.config.framesPerTick, channels, pending }

/-- Hands out what is in the queue. -/
def drain (player : Player) : Player × List Cue :=
  ({ player with pending := [] }, player.pending)

/-- Takes another song.  Cues of the old one are dropped; a player that was playing starts it. -/
def load (player : Player) (song : Song) : Player :=
  let filled := { player with
    bytecode := song.bytecode
    channels := channelsOf player.config song }
  let loaded := filled.drain.1
  if loaded.playing then loaded.run else loaded

/-- Sets the number of frames to leave out.  A countdown under way goes on. -/
def setFramesPerTick (player : Player) (frames : UInt16) : Player :=
  { player with config.framesPerTick := frames }

/-- Advances one frame of the host and hands out all cues. -/
def frame (player : Player) : Player × List Cue :=
  if 0 < player.frameCounter then
    ({ player with frameCounter := player.frameCounter - 1 }, [])
  else
    player.advance.drain

/-- Whether every channel of a playing player has halted. -/
def finished (player : Player) : Bool :=
  player.playing && player.channels.all (·.track.state.halted)

end Player

inductive PlayerCommand where
  | load (song : Song)
  | run
  | stop
  | frame
  | setFramesPerTick (frames : UInt16)
deriving Repr, DecidableEq, Inhabited

/-- Carries out a command.  Only a frame hands out cues. -/
def Player.perform (player : Player) : PlayerCommand → Player × List Cue
  | .load song => (player.load song, [])
  | .run => (player.run, [])
  | .stop => (player.stop, [])
  | .frame => player.frame
  | .setFramesPerTick frames => (player.setFramesPerTick frames, [])

/-! ## The queue -/

/-- In the end there are all the cues in the queue, in order of the channels. -/
theorem Channel.frameAll_eq (code : Bytecode) (channels : List Channel) (queue : List Cue) :
    frameAll code channels queue =
      (channels.map fun channel => (channel.frame code).1,
        queue ++ channels.flatMap fun channel => (channel.frame code).2) := by
  induction channels generalizing queue with
  | nil => simp [frameAll]
  | cons channel channels ih => simp [frameAll, ih]

/-- Nothing is left in the queue, whatever it held. -/
theorem Player.frame_eq (player : Player) (ready : ¬0 < player.frameCounter) :
    player.frame =
      ({ player with
          frameCounter := player.config.framesPerTick
          channels := player.channels.map fun channel => (channel.frame player.bytecode).1
          pending := [] },
        player.pending ++ player.channels.flatMap fun channel =>
          (channel.frame player.bytecode).2) := by
  rw [frame, if_neg ready, advance, Channel.frameAll_eq]
  rfl

end Sequencer
