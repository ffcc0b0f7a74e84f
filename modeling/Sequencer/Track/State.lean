import Sequencer.Event
import Sequencer.Instruction

/-!
# The state of a track

Everything a track changes while it runs, and the effect of one instruction.

* `TrackState` — the fields; the default value is the state of a fresh track.
* `Arithmetic` — the two ways of `add` and `sub`.
* `TrackState.execute` — one rule per instruction: the next state, and the event
  it raises.

Cursors are 16 bits wide and wrap around.  A conditional jump that is not taken
steps over its opcode and the low byte of its target only, so the high byte is
what comes next.
-/

namespace Sequencer

/-- How `add` and `sub` treat the register. -/
inductive Arithmetic where
  /-- Wrap around at 8 bits. -/
  | wrapping
  /-- Let the register leave the range of a byte; it wraps around at 32 bits. -/
  | unmasked
deriving Repr, DecidableEq, Inhabited

/-- The register after adding a signed amount. -/
def Arithmetic.add (register amount : Int32) : Arithmetic → Int32
  | wrapping => Int32.ofInt ((register + amount).toInt % 256)
  | unmasked => register + amount

structure TrackState where
  /-- Offset of the next instruction, counted from the track's base. -/
  cursor : UInt16 := 0
  /-- Frames left before the next phase. -/
  tickCounter : UInt16 := 0
  sectionAnchor : UInt16 := 0
  register : Int32 := 0
  /-- The result of the last comparison. -/
  flag : Bool := false
  instrument : UInt8 := 0
  note : UInt8 := 0
  syscallCode : UInt16 := 0
  /-- Frames to wait between phases. -/
  tickRate : UInt16 := 0
  /-- Phases left in a pause. -/
  waitCounter : UInt16 := 0
  halted : Bool := false
  syscallPulse : Bool := false
  instrumentPulse : Bool := false
  playPulse : Bool := false
deriving Repr, DecidableEq, Inhabited

namespace TrackState

/-- Takes back the pulses.  They live only for the phase that raised them. -/
def clearPulses (state : TrackState) : TrackState :=
  { state with syscallPulse := false, instrumentPulse := false, playPulse := false }

def advance (state : TrackState) (bytes : UInt16) : TrackState :=
  { state with cursor := state.cursor + bytes }

/-- Moves the cursor to the target if the condition holds, and over the given bytes if not. -/
def branch (state : TrackState) (condition : Condition) (target skipped : UInt16) : TrackState :=
  if condition.holds state.flag then { state with cursor := target } else state.advance skipped

/-- The register as an operand: its absolute value modulo 256. -/
def registerByte (state : TrackState) : UInt8 :=
  UInt8.ofNat state.register.toInt.natAbs

def select (state : TrackState) (index : UInt8) : TrackState × Option Event :=
  ({ state with instrument := index, instrumentPulse := true }, some (.instrument index))

def sound (state : TrackState) (pitch : UInt8) : TrackState × Option Event :=
  ({ state with note := pitch, playPulse := true }, some (.play pitch))

/-- The effect of one instruction: the next state and the event it raises. -/
def execute (arithmetic : Arithmetic) (state : TrackState) :
    Instruction → TrackState × Option Event
  | .nop => (state.advance 1, none)
  | .halt => ({ state.advance 1 with halted := true }, some .halt)
  | .jump condition target => (state.branch condition target 2, none)
  | .markSection => ({ state.advance 1 with sectionAnchor := state.cursor }, none)
  | .repeatSection condition => (state.branch condition state.sectionAnchor 1, none)
  | .syscall code =>
    ({ state.advance 3 with syscallCode := code, syscallPulse := true }, some (.syscall code))
  | .set value => ({ state.advance 2 with register := Int32.ofNat value.toNat }, none)
  | .add value =>
    ({ state.advance 2 with
        register := arithmetic.add state.register (Int32.ofNat value.toNat) }, none)
  | .sub value =>
    ({ state.advance 2 with
        register := arithmetic.add state.register (-Int32.ofNat value.toNat) }, none)
  | .compare relation value =>
    ({ state.advance 2 with flag := relation.holds state.register.toInt value.toNat }, none)
  | .ticks rate => ({ state.advance 2 with tickRate := rate.toUInt16 }, none)
  | .ticks16 rate => ({ state.advance 3 with tickRate := rate }, none)
  | .wait phases => ({ state.advance 2 with waitCounter := phases.toUInt16 }, none)
  | .wait16 phases => ({ state.advance 3 with waitCounter := phases }, none)
  | .instrument index => (state.advance 2).select index
  | .instrumentSet => (state.advance 1).select state.registerByte
  | .play pitch => (state.advance 2).sound pitch
  | .playSet => (state.advance 1).sound state.registerByte
  | .note pitch => (state.advance 1).sound pitch

end TrackState

end Sequencer
