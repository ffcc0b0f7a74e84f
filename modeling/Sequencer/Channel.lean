import Sequencer.Track

/-!
# Channels

A track at a place in the player.  What it asks for becomes cues, tagged with
the channel and with the sample pack selected at that moment.

* `Cue` — an event and where it comes from.
* `Channel.start`, `Channel.restart` — rewind the track, to play or to park it.
* `Channel.frame` — one frame, unless the track is halted.
-/

namespace Sequencer

/-- Something a channel asks the host to do. -/
structure Cue where
  channel : Nat
  /-- The sample pack selected when the event was raised. -/
  pack : Nat
  event : Event
deriving Repr, DecidableEq, Inhabited

/-- The instrument selected after an event. -/
def Event.instrumentAfter (selected : UInt8) : Event → UInt8
  | .instrument index => index
  | .halt | .syscall _ | .play _ => selected

/-- A track, its number, and the instrument its events have selected. -/
structure Channel where
  index : Nat := 0
  packCount : Nat := 6
  track : Track := {}
  selected : UInt8 := 0
deriving Repr, DecidableEq, Inhabited

namespace Channel

/-- The sample pack an instrument is folded onto. -/
def packOf (packCount : Nat) (instrument : UInt8) : Nat :=
  instrument.toNat % max packCount 1

def pack (channel : Channel) : Nat :=
  packOf channel.packCount channel.selected

/-- Takes in events one by one: the channel after them, and their cues behind those given,
the newest first. -/
def hear : List Event → Channel → List Cue → Channel × List Cue
  | [], channel, cues => (channel, cues)
  | event :: events, channel, cues =>
    let next := { channel with selected := event.instrumentAfter channel.selected }
    hear events next (⟨channel.index, next.pack, event⟩ :: cues)

def restart (channel : Channel) : Channel :=
  { channel with track := channel.track.reset.halt, selected := 0 }

def start (channel : Channel) : Channel :=
  let parked := channel.restart
  { parked with track := parked.track.resume }

def parked (index : Nat) (base : UInt16) (packCount : Nat) (config : TrackConfig) : Channel :=
  restart { index, packCount, track := { base, config } }

/-- Runs one frame.  A parked or halted channel does nothing. -/
def frame (channel : Channel) (code : Bytecode) : Channel × List Cue :=
  if channel.track.state.halted then
    (channel, [])
  else
    let (track, events) := channel.track.dispatch code
    let (heard, cues) := hear events { channel with track } []
    (heard, cues.reverse)

theorem hear_eq_append (events : List Event) (channel : Channel) (cues : List Cue) :
    hear events channel cues = ((hear events channel []).1, (hear events channel []).2 ++ cues) := by
  induction events generalizing channel cues with
  | nil => simp [hear]
  | cons event events ih =>
    simp only [hear]
    rw [ih _ (_ :: cues), ih _ [_]]
    simp

end Channel

end Sequencer
