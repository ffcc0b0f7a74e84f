import Sequencer.Rejection

/-!
# Songs

Several programs packed into one buffer, back to back, each at a base of its own.

* `Song.withTrack` — appends a program.  It must start where 16 bits reach; it
  may end beyond.
* `Song.compile` — compiles scripts and packs them in order, up to the first
  one that cannot be.
-/

namespace Sequencer

/-- A buffer of programs and where each one starts. -/
structure Song where
  bytecode : Bytecode := #[]
  bases : List UInt16 := []
deriving Repr, DecidableEq, Inhabited

/-- Why a song could not be packed. -/
inductive SongError where
  | rejected (source : String) (rejection : Rejection)
  | startsTooFar (start : Nat)
deriving Repr, DecidableEq, Inhabited

def SongError.message : SongError → String
  | rejected source rejection => rejection.render source
  | startsTooFar start =>
    "track starts at byte " ++ Text.decimal start ++ ", past the 16 bit address space"

namespace Song

/-- Appends a program at the end of the buffer. -/
def withTrack (song : Song) (program : Bytecode) : Except SongError Song :=
  if song.bytecode.size < 65536 then
    .ok ⟨song.bytecode ++ program, song.bases ++ [UInt16.ofNat song.bytecode.size]⟩
  else
    .error (.startsTooFar song.bytecode.size)

/-- Compiles a script and appends its program. -/
def withScript (song : Song) (source : String) : Except SongError Song :=
  match compileSource source with
  | .ok program => song.withTrack program
  | .error rejection => .error (.rejected source rejection)

def ofTracks (programs : List Bytecode) : Except SongError Song :=
  programs.foldlM withTrack {}

def compile (sources : List String) : Except SongError Song :=
  sources.foldlM withScript {}

end Song

end Sequencer
