import Sequencer.Proofs.Encoding
import Sequencer.Proofs.Track.Steps

/-!
# What a track can see of a buffer

A cursor has 16 bits and an operand takes two more bytes, so a track sees the bytes
from its base to 65537 bytes behind it, and nothing else of the buffer.

* `SameWindow` — two buffers look the same from two bases.
* `Track.Alike` — two tracks that differ only in where their program lies.
  `Track.Alike.perform` is the step, `Track.Alike.run` the run.
* `Track.indistinguishable_of_window` — so neither the place of a program matters, nor do zeros at
  the end of a buffer.
-/

namespace Sequencer

variable {code other : Bytecode} {base base' : UInt16}

/-- Whether the buffers read the same from the bases on, as far as a track can see. -/
def SameWindow (code : Bytecode) (base : UInt16) (other : Bytecode) (base' : UInt16) : Prop :=
  ∀ distance ≤ 65537,
    code.byteAt (base.toNat + distance) = other.byteAt (base'.toNat + distance)

/-- An instruction is decoded from three bytes at most. -/
theorem Bytecode.decode_congr {offset offset' : Nat}
    (same : ∀ distance ≤ 2, code.byteAt (offset + distance) = other.byteAt (offset' + distance)) :
    code.decode offset = other.decode offset' := by
  have opcode : code.byteAt offset = other.byteAt offset' := same 0 (by omega)
  have low : code.byteAt (offset + 1) = other.byteAt (offset' + 1) := same 1 (by omega)
  have high : code.byteAt (offset + 1 + 1) = other.byteAt (offset' + 1 + 1) := same 2 (by omega)
  simp only [decode, wordAt, opcode, low, high]

theorem SameWindow.decode_eq (window : SameWindow code base other base') (cursor : UInt16) :
    code.decode (base.toNat + cursor.toNat) = other.decode (base'.toNat + cursor.toNat) := by
  have bound := cursor.toNat_lt
  apply Bytecode.decode_congr
  intro distance le
  rw [Nat.add_assoc, Nat.add_assoc]
  exact window (cursor.toNat + distance) (by omega)

/-- From its base on a buffer looks the same as what is left of it behind the base. -/
theorem sameWindow_drop (code : Bytecode) (base : UInt16) :
    SameWindow code base (code.drop base.toNat) 0 := by
  intro distance _
  have rest : (code.drop base.toNat).toList = code.toList.drop base.toNat := by
    simp [List.take_of_length_le]
  rw [Bytecode.byteAt_eq_getElem?, Bytecode.byteAt_eq_getElem?, rest, List.getElem?_drop]
  simp

/-- Zeros at the end of a buffer look the same as its end. -/
theorem sameWindow_append_replicate (code : Bytecode) (base : UInt16) (count : Nat) :
    SameWindow (code ++ Array.replicate count 0) base code base := by
  intro distance _
  simp only [Bytecode.byteAt_eq_getElem?, Array.toList_append, Array.toList_replicate,
    List.getElem?_append]
  split
  · rfl
  next past =>
    rw [List.getElem?_replicate, List.getElem?_eq_none (by omega)]
    split <;> rfl

namespace Track

/-- The tracks look at the same bytes and agree in all but their base. -/
structure Alike (code other : Bytecode) (first second : Track) : Prop where
  window : SameWindow code first.base other second.base
  config : first.config = second.config
  state : first.state = second.state

variable {first second : Track}

theorem Alike.fetch_eq (alike : Alike code other first second) :
    first.fetch code = second.fetch other :=
  funext alike.window.decode_eq

/-- In one frame both execute the same instructions, fetched in the same states. -/
theorem Alike.fetching_eq (alike : Alike code other first second) :
    first.state.fetching first.config (first.fetch code) =
      second.state.fetching second.config (second.fetch other) := by
  rw [alike.fetch_eq, alike.config, alike.state]

/-- The step: a command asks for the same events and leaves the tracks alike. -/
theorem Alike.perform (alike : Alike code other first second) (command : TrackCommand) :
    (first.perform code command).2 = (second.perform other command).2 ∧
      Alike code other (first.perform code command).1 (second.perform other command).1 := by
  have fetch := alike.fetch_eq
  obtain ⟨window, config, state⟩ := alike
  cases command with
  | dispatch =>
    simp only [Track.perform, Track.dispatch, fetch, config, state]
    exact ⟨trivial, window, rfl, rfl⟩
  | reset => exact ⟨rfl, window, config, rfl⟩
  | halt => exact ⟨rfl, window, config, congrArg (fun old => { old with halted := true }) state⟩
  | resume => exact ⟨rfl, window, config, congrArg (fun old => { old with halted := false }) state⟩

/-- The run: so do all commands of a list. -/
theorem Alike.run (alike : Alike code other first second) (commands : List TrackCommand) :
    (first.run code commands).2 = (second.run other commands).2 ∧
      Alike code other (first.run code commands).1 (second.run other commands).1 := by
  induction commands generalizing first second with
  | nil => exact ⟨rfl, alike⟩
  | cons command commands ih =>
    obtain ⟨events, alike'⟩ := alike.perform command
    obtain ⟨rest, last⟩ := ih alike'
    simp only [run_cons]
    exact ⟨by rw [events, rest], last⟩

/-- Whether two tracks cannot be told apart: after all commands they have asked for the same
events, are in the same state, and fetch their next instructions in the same states. -/
def Indistinguishable (code other : Bytecode) (first second : Track) : Prop :=
  ∀ commands,
    let last := (first.run code commands).1
    let last' := (second.run other commands).1
    (first.run code commands).2 = (second.run other commands).2 ∧ last.state = last'.state ∧
      last.state.fetching last.config (last.fetch code) =
        last'.state.fetching last'.config (last'.fetch other)

/-- Tracks that look at the same bytes cannot be told apart.  So a program behaves the same at its
base as at the front of a buffer, and zeros at the end of a buffer do not matter. -/
theorem indistinguishable_of_window (config : TrackConfig) (state : TrackState) :
    (∀ code other base base', SameWindow code base other base' →
      Indistinguishable code other ⟨base, config, state⟩ ⟨base', config, state⟩) ∧
    (∀ code base,
      Indistinguishable code (code.drop base.toNat) ⟨base, config, state⟩ ⟨0, config, state⟩) ∧
    (∀ code base count, Indistinguishable (code ++ Array.replicate count 0) code
      ⟨base, config, state⟩ ⟨base, config, state⟩) := by
  have indistinguishable : ∀ code other base base', SameWindow code base other base' →
      Indistinguishable code other ⟨base, config, state⟩ ⟨base', config, state⟩ := by
    intro code other base base' window commands
    have alike : Alike code other ⟨base, config, state⟩ ⟨base', config, state⟩ :=
      ⟨window, rfl, rfl⟩
    obtain ⟨events, last⟩ := alike.run commands
    exact ⟨events, last.state, last.fetching_eq⟩
  exact ⟨indistinguishable, fun code base => indistinguishable _ _ _ _ (sameWindow_drop code base),
    fun code base count =>
      indistinguishable _ _ _ _ (sameWindow_append_replicate code base count)⟩

/-- The second program of one buffer, and the same program in another buffer with zeros around it. -/
theorem indistinguishable_second_program :
    let code : Bytecode := #[0xE7, 1, 0xFF, 0xE7, 2, 0xFF]
    let other : Bytecode := #[0, 0xE7, 2, 0xFF, 0, 0]
    SameWindow code 3 other 1 ∧ Indistinguishable code other { base := 3 } { base := 1 } ∧
      ((⟨3, {}, {}⟩ : Track).run code [.dispatch, .reset, .dispatch, .dispatch]).2 =
        [.play 2, .play 2, .halt] := by
  intro code other
  have window : SameWindow code 3 other 1 := by
    intro distance _
    by_cases inside : distance < 3
    · have all : ∀ distance < 3, code.byteAt (3 + distance) = other.byteAt (1 + distance) := by
        decide
      exact all distance inside
    · rw [Bytecode.byteAt_of_size_le (show 6 ≤ 3 + distance by omega)]
      obtain rfl | rfl | past : distance = 3 ∨ distance = 4 ∨ 6 ≤ 1 + distance := by omega
      · rfl
      · rfl
      · exact (Bytecode.byteAt_of_size_le past).symm
  exact ⟨window, (indistinguishable_of_window {} {}).1 code other 3 1 window, by decide⟩

end Track

end Sequencer
