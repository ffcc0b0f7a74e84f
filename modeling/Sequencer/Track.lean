import Sequencer.Bytecode
import Sequencer.Track.Dispatch

/-!
# Tracks

A track runs one program of a buffer, starting at its base.

* `Track.dispatch` — one frame over a buffer.
* `Track.reset`, `Track.halt`, `Track.resume` — what a host does to a track from
  outside; none of them raises an event.
* `Track.run` — a list of such commands over one buffer, with all events in order.
-/

namespace Sequencer

/-- A program's place in the buffer, the way it runs, and how far it has come. -/
structure Track where
  base : UInt16 := 0
  config : TrackConfig := {}
  state : TrackState := {}
deriving Repr, DecidableEq, Inhabited

inductive TrackCommand where
  | dispatch
  | reset
  | halt
  | resume
deriving Repr, DecidableEq, Inhabited

namespace Track

/-- The instruction a track's cursor points to. -/
def fetch (track : Track) (code : Bytecode) (cursor : UInt16) : Instruction :=
  code.decode (track.base.toNat + cursor.toNat)

/-- Advances the track by one frame. -/
def dispatch (track : Track) (code : Bytecode) : Track × List Event :=
  let (state, events) := track.state.dispatch track.config (track.fetch code)
  ({ track with state }, events)

/-- Puts every field of the state back to its default. -/
def reset (track : Track) : Track :=
  { track with state := {} }

/-- Stops the track without running anything. -/
def halt (track : Track) : Track :=
  { track with state.halted := true }

/-- Lets a stopped track go on. -/
def resume (track : Track) : Track :=
  { track with state.halted := false }

def perform (track : Track) (code : Bytecode) : TrackCommand → Track × List Event
  | .dispatch => track.dispatch code
  | .reset => (track.reset, [])
  | .halt => (track.halt, [])
  | .resume => (track.resume, [])

/-- Carries out commands in order, putting events in front of those already heard. -/
def runFrom (code : Bytecode) : List TrackCommand → Track → List Event → Track × List Event
  | [], track, heard => (track, heard)
  | command :: commands, track, heard =>
    let (next, events) := track.perform code command
    runFrom code commands next (events.reverse ++ heard)

def run (track : Track) (code : Bytecode) (commands : List TrackCommand) : Track × List Event :=
  let (last, heard) := runFrom code commands track []
  (last, heard.reverse)

theorem runFrom_eq_append (code : Bytecode) (commands : List TrackCommand) (track : Track)
    (heard : List Event) :
    runFrom code commands track heard =
      ((runFrom code commands track []).1, (runFrom code commands track []).2 ++ heard) := by
  induction commands generalizing track heard with
  | nil => simp [runFrom]
  | cons command commands ih =>
    simp only [runFrom]
    rw [ih _ (_ ++ heard), ih _ (_ ++ [])]
    simp

@[simp] theorem run_nil (track : Track) (code : Bytecode) : track.run code [] = (track, []) :=
  rfl

theorem run_cons (track : Track) (code : Bytecode) (command : TrackCommand)
    (commands : List TrackCommand) :
    track.run code (command :: commands) =
      let first := track.perform code command
      let rest := first.1.run code commands
      (rest.1, first.2 ++ rest.2) := by
  simp only [run, runFrom]
  rw [runFrom_eq_append]
  simp

end Track

end Sequencer
