import Sequencer.Player

/-!
# The pump

A player that runs beside its host.  The host writes songs to a slot, where a
newer one replaces one that has not been taken, and sends messages to an inbox;
the pump sends cues back.

* `Pump` — the player together with everything the two sides share.
* `Pump.turn` — one step of the pump: take a written song, then take at most one
  message, then run a frame and send its cues, and so on.
* `Pump.perform` — a step of either side, so a list of actions is an interleaving.
-/

namespace Sequencer

inductive Message where
  | run
  | stop
  | shutdown
deriving Repr, DecidableEq, Inhabited

inductive PumpStage where
  | song
  | message
  | frame
  | ended
deriving Repr, DecidableEq, Inhabited

/-- A pump and what it shares with its host. -/
structure Pump where
  player : Player := {}
  stage : PumpStage := .song
  /-- A song written and not yet taken. -/
  written : Option Song := none
  /-- Messages not yet taken, the oldest first. -/
  inbox : List Message := []
  /-- Whether the host can still send messages. -/
  connected : Bool := true
  /-- Whether the host still takes cues. -/
  listening : Bool := true
  /-- All cues sent, in order. -/
  sent : List Cue := []
deriving Repr, DecidableEq, Inhabited

inductive PumpAction where
  | write (song : Song)
  | send (message : Message)
  | disconnect
  | dropCues
  | turn
deriving Repr, DecidableEq, Inhabited

namespace Pump

def ofConfig (config : PlayerConfig) : Pump :=
  { player := { config } }

def takeSong (pump : Pump) : Pump :=
  match pump.written with
  | some song => { pump with player := pump.player.load song, written := none, stage := .message }
  | none => { pump with stage := .message }

/-- Takes one message.  A shutdown ends the pump, and so does an empty inbox that can get no
more. -/
def takeMessage (pump : Pump) : Pump :=
  match pump.inbox with
  | .run :: inbox => { pump with player := pump.player.run, inbox, stage := .frame }
  | .stop :: inbox => { pump with player := pump.player.stop, inbox, stage := .frame }
  | .shutdown :: inbox => { pump with inbox, stage := .ended }
  | [] => { pump with stage := if pump.connected then .frame else .ended }

/-- Runs a frame and sends its cues.  A cue that nobody takes ends the pump. -/
def runFrame (pump : Pump) : Pump :=
  let (player, cues) := pump.player.frame
  if pump.listening then
    { pump with player, sent := pump.sent ++ cues, stage := .song }
  else
    { pump with player, stage := if cues.isEmpty then .song else .ended }

def turn (pump : Pump) : Pump :=
  match pump.stage with
  | .song => pump.takeSong
  | .message => pump.takeMessage
  | .frame => pump.runFrame
  | .ended => pump

def perform (pump : Pump) : PumpAction → Pump
  | .write song => { pump with written := some song }
  | .send message => { pump with inbox := pump.inbox ++ [message] }
  | .disconnect => { pump with connected := false }
  | .dropCues => { pump with listening := false }
  | .turn => pump.turn

end Pump

end Sequencer
