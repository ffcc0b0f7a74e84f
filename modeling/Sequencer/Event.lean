/-!
# Events

What a track asks its host for while it runs.
-/

namespace Sequencer

/-- One request to the host. -/
inductive Event where
  /-- The track has stopped, or was told to run while stopped. -/
  | halt
  | syscall (code : UInt16)
  | instrument (index : UInt8)
  | play (pitch : UInt8)
deriving Repr, DecidableEq, Inhabited

end Sequencer
