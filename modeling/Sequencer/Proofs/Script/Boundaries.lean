import Sequencer.Proofs.Script.Tame
import Sequencer.Proofs.Track.Course

/-!
# Where a track can be in a script

A tame script that is short enough for its labels to fit into a byte is executed
instruction by instruction, whatever jumps and repeats there are.

* `Boundary` — where the cursor can be, and what is read there.
* `boundary_of_tame` — before every fetch and behind every frame it is there.
-/

namespace Sequencer.Script

/-- Where the cursor stands in a compiled script: on an instruction, on the last `halt`, on the
last byte of a conditional jump, where there is a zero, or behind the end of a stopped track. -/
inductive Boundary (body : List Instruction) (code : Bytecode) (state : TrackState) : Prop where
  | start {instruction : Instruction} (starts : Starts body state.cursor.toNat instruction)
      (decoded : code.decode state.cursor.toNat = instruction)
  | last (cursor : state.cursor.toNat + 1 = code.size)
      (decoded : code.decode state.cursor.toNat = .halt)
  | high {offset : Nat} {condition : Condition} {target : UInt16}
      (conditional : condition ≠ .always) (starts : Starts body offset (.jump condition target))
      (cursor : state.cursor.toNat = offset + 2) (decoded : code.decode state.cursor.toNat = .nop)
  | behind (cursor : state.cursor.toNat = code.size ∨ state.cursor.toNat = code.size + 1)
      (halted : state.halted = true)

/-- An instruction lies in front of the last `halt`, or is the last `halt`. -/
theorem starts_of_starts_halt {body : List Instruction} {offset : Nat} {instruction : Instruction}
    (starts : Starts (body ++ [.halt]) offset instruction) :
    Starts body offset instruction ∨
      instruction = .halt ∧ offset + 1 = (bytesOf (body ++ [.halt])).length := by
  obtain ⟨before, after, split, rfl⟩ := starts
  obtain rfl | ⟨rest, last, rfl⟩ := List.eq_nil_or_concat after
  · obtain ⟨rfl, last⟩ := List.append_inj' split rfl
    obtain rfl : Instruction.halt = instruction := List.singleton_inj.mp last
    refine .inr ⟨rfl, ?_⟩
    rw [bytesOf_append, List.length_append]
    rfl
  · rw [List.concat_eq_append, ← List.cons_append, ← List.append_assoc] at split
    exact .inl ⟨before, rest, (List.append_inj' split rfl).1, rfl⟩

section Course

variable {program : Program} {code : Bytecode} {track : Track} {state : TrackState}

/-- A track on its course is at a boundary. -/
theorem boundary_of_tracked (placed : program.Placed (track.fetch code)) (base : track.base = 0)
    (size : program.size = code.size) (tracked : program.Tracked state) :
    Boundary program.body code state := by
  have fetch : track.fetch code state.cursor = code.decode state.cursor.toNat := by
    simp [Track.fetch, base]
  obtain (⟨inside, -⟩ | ⟨halted, behind⟩) | ⟨halted, behind⟩ := tracked
  · generalize place : state.cursor.toNat = offset at inside
    cases inside with
    | @start _ instruction starts =>
      subst place
      have decoded := fetch.symm.trans (placed.start _ _ starts)
      obtain inBody | ⟨rfl, ended⟩ := starts_of_starts_halt starts
      · exact .start inBody decoded
      · exact .last (ended.trans size) decoded
    | @high offset condition target conditional starts =>
      have decoded := fetch.symm.trans (placed.high _ _ _ _ place starts)
      obtain inBody | ⟨impossible, -⟩ := starts_of_starts_halt starts
      · exact .high conditional inBody place decoded
      · cases impossible
  · exact .behind (.inl (behind.trans size)) halted
  · exact .behind (.inr (size ▸ behind)) halted

end Course

variable {script : List Statement} {code : Bytecode}

/-- The instructions of a tame script of at most 256 bytes lie one behind the other in its code.
Before every fetch and behind every frame the cursor of a track is at a boundary between them. -/
theorem boundary_of_tame (config : TrackConfig) (compiled : compile script = .ok code)
    (tame : Tame script) (short : code.size ≤ 256) (frame : Nat) :
    let body := instructionsOf (labelsOf script) script
    let track : Track := { config }
    code.toList = bytesOf body ++ [Opcode.halt.byte] ∧
      Boundary body code (track.after code frame).state ∧
      (∀ state ∈ track.fetchingAt code frame, Boundary body code state) ∧
      track.executedAt code frame =
        (track.fetchingAt code frame).map fun state => code.decode state.cursor.toNat := by
  intro body track
  have accepted := compile_eq_ok_iff.mp compiled
  obtain ⟨program, own, bytes⟩ := accepted.exists_program_body tame short
  have fetch : ∀ cursor, track.fetch code cursor = code.decode cursor.toNat := by
    intro cursor
    simp [track, Track.fetch]
  have size : program.size = code.size := Routine.size_eq bytes
  have layout : code.toList = [] ++ (bytesOf program.instructions ++ []) := by simp [bytes]
  have placed : program.Placed (track.fetch code) := program.placed_decode layout rfl
  have silent : ∀ cursor : UInt16, program.size ≤ cursor.toNat → track.fetch code cursor = .nop := by
    intro cursor past
    rw [fetch]
    exact Bytecode.decode_of_size_le (size ▸ past)
  obtain ⟨left, fetched⟩ := Program.tracked_after placed silent rfl frame
  have boundary : ∀ state, program.Tracked state → Boundary body code state := by
    intro state tracked
    rw [show body = program.body from own.symm]
    exact boundary_of_tracked placed rfl size tracked
  refine ⟨?_, boundary _ left, fun state member => boundary _ (.inl (fetched state member)), ?_⟩
  · rw [← accepted.bytesOf_eq, bytesOf_append]
    rfl
  · rw [Track.executedAt, TrackState.executed_eq_map_fetching]
    exact List.map_congr_left fun state _ => fetch state.cursor

/-- The script `again: set(1) equal(0) ifjump(again) play(60)`. -/
def skippedJump : List Statement :=
  [.label "again" ⟨0, 6⟩,
    .call ⟨"set", [⟨.number 1, ⟨11, 12⟩⟩], ⟨7, 13⟩⟩,
    .call ⟨"equal", [⟨.number 0, ⟨20, 21⟩⟩], ⟨14, 22⟩⟩,
    .call ⟨"ifjump", [⟨.label "again", ⟨30, 35⟩⟩], ⟨23, 36⟩⟩,
    .call ⟨"play", [⟨.number 60, ⟨42, 44⟩⟩], ⟨37, 45⟩⟩]

theorem tame_skippedJump : Tame skippedJump := by
  intro call member
  simp only [skippedJump, calls, List.filterMap_cons, Statement.call?, List.filterMap_nil,
    List.mem_cons, List.not_mem_nil, or_false] at member
  obtain rfl | rfl | rfl | rfl := member
  · exact Call.tame_of_opcode (show _ = Opcode.set.mnemonic from rfl) (by simp)
  · exact Call.tame_of_opcode (show _ = (Opcode.compare .equal).mnemonic from rfl) (by simp)
  · exact Call.tame_of_jump (show _ = (Opcode.jump .ifSet).mnemonic from rfl)
      (List.forall_mem_singleton.mpr ⟨_, rfl⟩)
  · exact Call.tame_of_opcode (show _ = Opcode.play.mnemonic from rfl) (by simp)

/-- In its first frame the track leaves the jump out, and goes over the high byte of the target. -/
theorem boundary_skippedJump :
    let code : Bytecode := #[0xF5, 1, 0xF2, 0, 0xFD, 0, 0, 0xE7, 60, 0xFF]
    let body : List Instruction := [.set 1, .compare .equal 0, .jump .ifSet 0, .play 60]
    compile skippedJump = .ok code ∧ Tame skippedJump ∧ code.size ≤ 256 ∧
      instructionsOf (labelsOf skippedJump) skippedJump = body ∧
      (({} : Track).after code 1).state.cursor = 7 ∧
      ({} : Track).executedAt code 0 = [.set 1, .compare .equal 0, .jump .ifSet 0, .nop] ∧
      ∀ frame, Boundary body code (({} : Track).after code frame).state ∧
        ∀ state ∈ ({} : Track).fetchingAt code frame, Boundary body code state := by
  intro code body
  have compiled : compile skippedJump = .ok code := by decide
  have decoded : instructionsOf (labelsOf skippedJump) skippedJump = body := by decide
  refine ⟨compiled, tame_skippedJump, by decide, decoded, by decide, by decide, ?_⟩
  intro frame
  obtain ⟨-, left, fetched, -⟩ :=
    boundary_of_tame {} compiled tame_skippedJump (by decide) frame
  rw [decoded] at left fetched
  exact ⟨left, fetched⟩

end Sequencer.Script
