import Sequencer.Track.State

/-!
# One frame of a track

Most frames are swallowed by the tick rate or by a pause.  The others run a
phase: instructions are executed until one of them ends it.

* `TrackState.runPhase` — a phase.  The limit on its instructions keeps a program
  that never ends one from holding up the host.
* `TrackState.dispatch` — one frame.

Both read the program through a function from cursors to instructions, so they
do not depend on where in a buffer it lies.
-/

namespace Sequencer

structure TrackConfig where
  /-- The greatest number of instructions in one phase. -/
  maxInstructions : Nat := 255
  arithmetic : Arithmetic := .wrapping
deriving Repr, DecidableEq, Inhabited

namespace TrackState

/-- Executes at most `limit` instructions, up to one that ends the phase.  Events go in front
of those already heard, so the newest comes first.  A halt does not end the phase. -/
def runPhase (arithmetic : Arithmetic) (fetch : UInt16 → Instruction) :
    Nat → TrackState → List Event → TrackState × List Event
  | 0, state, heard => (state, heard)
  | limit + 1, state, heard =>
    let instruction := fetch state.cursor
    let (next, event) := state.execute arithmetic instruction
    if instruction.endsTick then
      (next, event.toList ++ heard)
    else
      runPhase arithmetic fetch limit next (event.toList ++ heard)

/-- One frame.  A halted track only reports the halt again; a running one counts down to its
next phase, where it takes back the pulses, then sits out a pause or runs instructions. -/
def dispatch (config : TrackConfig) (fetch : UInt16 → Instruction) (state : TrackState) :
    TrackState × List Event :=
  if state.halted then
    (state, [.halt])
  else if 0 < state.tickCounter then
    ({ state with tickCounter := state.tickCounter - 1 }, [])
  else
    let ready := { state.clearPulses with tickCounter := state.tickRate }
    if 0 < ready.waitCounter then
      ({ ready with waitCounter := ready.waitCounter - 1 }, [])
    else
      let (next, heard) := ready.runPhase config.arithmetic fetch config.maxInstructions []
      (next, heard.reverse)

theorem runPhase_eq_append (arithmetic : Arithmetic) (fetch : UInt16 → Instruction)
    (limit : Nat) (state : TrackState) (heard : List Event) :
    state.runPhase arithmetic fetch limit heard =
      ((state.runPhase arithmetic fetch limit []).1,
        (state.runPhase arithmetic fetch limit []).2 ++ heard) := by
  induction limit generalizing state heard with
  | zero => simp [runPhase]
  | succ limit ih =>
    simp only [runPhase]
    split
    · simp
    · rw [ih _ (_ ++ heard), ih _ (_ ++ [])]
      simp

end TrackState

end Sequencer
