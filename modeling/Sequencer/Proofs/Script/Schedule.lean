import Sequencer.Proofs.Script.Tame
import Sequencer.Proofs.Track.Schedule

/-!
# When a straight script plays what

A script that neither jumps nor repeats nor halts is a timetable: the frame of every
instruction that ends a phase follows from the rates and pauses in front of it.

* `Straight` — the condition on a script.  Its raw bytes are played as they are.
* `Accepted.laid` — a track that starts with its bytes goes from one instruction to
  the next.
* `events_of_straight` — the timetable.
-/

namespace Sequencer.Script

/-- The mnemonics of what stops a track or takes it elsewhere. -/
def detours : List String :=
  ["halt", "jump", "ifjump", "ifnotjump", "repeat", "ifrepeat", "ifnotrepeat"]

/-- Whether a call goes on to the one behind it, and writes only raw bytes that are played as they
are. -/
structure Call.Straight (call : Call) : Prop where
  onward : call.name ∉ detours
  bytes : call.name = dataMnemonic → ∀ argument ∈ call.arguments, ∀ value,
    argument.value = .number value →
      (Operand.integer value).byte = 0 ∨ IsBareNote (Operand.integer value).byte

def Straight (script : List Statement) : Prop :=
  ∀ call ∈ calls script, call.Straight

theorem Call.Straight.tame {call : Call} (straight : call.Straight) : call.Tame := by
  refine ⟨fun condition jump => absurd ?_ straight.onward, straight.bytes⟩
  cases condition <;> simp [detours, jump, Opcode.mnemonic]

theorem Call.straight_of_opcode {call : Call} {opcode : Opcode}
    (name : call.name = opcode.mnemonic) (onward : opcode.mnemonic ∉ detours) : call.Straight :=
  ⟨name ▸ onward, fun data => absurd (name.symm.trans data) (mnemonic_ne_dataMnemonic opcode)⟩

theorem onward_ofOpcode {opcode : Opcode} (narrow : UInt8) (wide : UInt16)
    (onward : opcode.mnemonic ∉ detours) :
    (Instruction.ofOpcode opcode narrow wide).Onward := by
  cases opcode with
  | halt => simp [detours, Opcode.mnemonic] at onward
  | jump condition | repeatSection condition =>
    cases condition <;> simp [detours, Opcode.mnemonic] at onward
  | _ => trivial

theorem Makes.onward {labels : Labels} {call : Call} {directive : Directive}
    (makes : Makes labels call directive) (straight : call.Straight) :
    ∀ instruction ∈ directive.instructions, instruction.Onward := by
  intro instruction member
  cases makes with
  | plain name | operand name =>
    obtain rfl := List.mem_singleton.mp member
    exact onward_ofOpcode _ _ (name ▸ straight.onward)
  | data name given =>
    obtain ⟨operand, -, rfl⟩ := List.mem_map.mp member
    unfold Instruction.ofDataByte
    split <;> trivial

variable {script : List Statement} {code : Bytecode}

/-- The bytes of a straight script take a track that starts with them from one instruction to the
next. -/
theorem Accepted.laid (accepted : Accepted script code) (straight : Straight script)
    (short : code.size < 65536) {track : Track} (base : track.base = 0) :
    Laid (instructionsOf (labelsOf script) script) (track.fetch code) := by
  have bytes := accepted.bytesOf_eq.symm
  -- offsets up to the end of the buffer fit into a cursor
  have fetch : ∀ offset ≤ code.size,
      track.fetch code (UInt16.ofNat offset) = code.decode offset := by
    intro offset le
    rw [Track.fetch, base, UInt16.toNat_ofNat', Nat.mod_eq_of_lt (by omega)]
    simp
  have made : ∀ instruction ∈ instructionsOf (labelsOf script) script,
      instruction.Canonical ∧ instruction.Onward := by
    intro instruction member
    obtain ⟨call, isCall, directive, makes, member⟩ := mem_instructionsOf member
    exact ⟨makes.canonical (straight call isCall).tame instruction member,
      makes.onward (straight call isCall) instruction member⟩
  constructor
  · intro before instruction after split
    have canonical : instruction.Canonical := by
      have member : instruction ∈ instructionsOf (labelsOf script) script ++ [.halt] := by
        simp [split]
      obtain inBody | last := List.mem_append.mp member
      · exact (made instruction inBody).1
      · rw [List.mem_singleton.mp last]
        trivial
    have layout : code.toList = bytesOf before ++ (instruction.encode ++ bytesOf after) := by
      rw [bytes, split, bytesOf_append, bytesOf_cons]
    have within : (bytesOf before).length ≤ code.size := by
      rw [← Array.length_toList, layout, List.length_append]
      omega
    rw [fetch _ within]
    exact Bytecode.decode_encode canonical layout
  · rw [← bytes, Array.length_toList, fetch _ (Nat.le_refl _),
      Bytecode.decode_of_size_le (Nat.le_refl _)]
  · exact fun instruction member => (made instruction member).2

/-- A track plays a straight script by its timetable.  Each instruction that ends a phase is
executed in the frame in which it is due, behind everything that lies in front of it, and what it
asks for is all that the frame raises.  The first halt comes when one more would be due, and the
frames in between are silent. -/
theorem events_of_straight (config : TrackConfig) (compiled : compile script = .ok code)
    (straight : Straight script) (short : code.size < 65536)
    (room : RunsFit config.maxInstructions (instructionsOf (labelsOf script) script)) :
    let body := instructionsOf (labelsOf script) script
    let enders := body.filter (·.endsTick)
    let track : Track := { config }
    (∀ turn (within : turn < enders.length), ∃ before run after,
      body = before ++ (run ++ enders[turn] :: after) ∧
      before.filter (·.endsTick) = enders.take turn ∧
      (∀ instruction ∈ run, instruction.endsTick = false) ∧
      (List.range (due enders turn)).flatMap (track.executedAt code) = before ∧
      track.executedAt code (due enders turn) = run ++ [enders[turn]] ∧
      track.eventsAt code (due enders turn) =
        (enders[turn].event? (registerAfter config.arithmetic (before ++ run))).toList) ∧
    track.eventsAt code (due enders enders.length) = [.halt] ∧
    ∀ frame < due enders enders.length, .halt ∉ track.eventsAt code frame ∧
      ((∀ turn < enders.length, frame ≠ due enders turn) →
        track.executedAt code frame = [] ∧ track.eventsAt code frame = []) := by
  intro body enders track
  have laid : Laid body (track.fetch code) :=
    (compile_eq_ok_iff.mp compiled).laid straight short rfl
  exact ⟨fun turn within => Track.exists_turn laid rfl room within,
    Track.eventsAt_last laid rfl room, fun frame lt =>
      ⟨Track.halt_not_mem_eventsAt laid rfl room lt, Track.silent_of_ne_due laid rfl room lt⟩⟩

/-- The script `ticks(2) set(60) playset() wait(1) db(62)`. -/
def pacedTune : List Statement :=
  [.call ⟨"ticks", [⟨.number 2, ⟨6, 7⟩⟩], ⟨0, 8⟩⟩,
    .call ⟨"set", [⟨.number 60, ⟨13, 15⟩⟩], ⟨9, 16⟩⟩,
    .call ⟨"playset", [], ⟨17, 26⟩⟩,
    .call ⟨"wait", [⟨.number 1, ⟨32, 33⟩⟩], ⟨27, 34⟩⟩,
    .call ⟨"db", [⟨.number 62, ⟨38, 40⟩⟩], ⟨35, 41⟩⟩]

theorem straight_pacedTune : Straight pacedTune := by
  intro call member
  simp only [pacedTune, calls, List.filterMap_cons, Statement.call?, List.filterMap_nil,
    List.mem_cons, List.not_mem_nil, or_false] at member
  obtain rfl | rfl | rfl | rfl | rfl := member
  · exact Call.straight_of_opcode (show _ = Opcode.ticks.mnemonic from rfl) (by decide)
  · exact Call.straight_of_opcode (show _ = Opcode.set.mnemonic from rfl) (by decide)
  · exact Call.straight_of_opcode (show _ = Opcode.playSet.mnemonic from rfl) (by decide)
  · exact Call.straight_of_opcode (show _ = Opcode.wait.mnemonic from rfl) (by decide)
  · refine ⟨by decide, fun _ argument given value number => ?_⟩
    obtain rfl := List.mem_singleton.mp given
    cases number
    decide

theorem events_pacedTune :
    let code : Bytecode := #[0xED, 2, 0xF5, 60, 0xE6, 0xEB, 1, 62, 0xFF]
    let body : List Instruction := [.ticks 2, .set 60, .playSet, .wait 1, .note 62]
    compile pacedTune = .ok code ∧ Straight pacedTune ∧
      instructionsOf (labelsOf pacedTune) pacedTune = body ∧ RunsFit 255 body ∧
      (List.range 5).map (due (body.filter (·.endsTick))) = [0, 1, 4, 10, 13] ∧
      ({} : Track).eventsAt code 1 = [.play 60] ∧ ({} : Track).eventsAt code 10 = [.play 62] ∧
      ({} : Track).eventsAt code 13 = [.halt] ∧
      ∀ frame < 13, .halt ∉ ({} : Track).eventsAt code frame ∧
        (frame ∉ [0, 1, 4, 10] → ({} : Track).eventsAt code frame = []) := by
  intro code body
  have compiled : compile pacedTune = .ok code := by decide
  have decoded : instructionsOf (labelsOf pacedTune) pacedTune = body := by decide
  have room : RunsFit 255 body := fun run part _ =>
    Nat.lt_of_le_of_lt part.length_le (by decide)
  have schedule : (List.range 5).map (due (body.filter (·.endsTick))) = [0, 1, 4, 10, 13] := by
    decide
  have turns : due (body.filter (·.endsTick)) (body.filter (·.endsTick)).length = 13 := by decide
  obtain ⟨-, last, earlier⟩ :=
    events_of_straight {} compiled straight_pacedTune (by decide) (decoded ▸ room)
  rw [decoded, turns] at last earlier
  refine ⟨compiled, straight_pacedTune, decoded, room, schedule, by decide, by decide, last,
    fun frame lt => ⟨(earlier frame lt).1,
      fun other => ((earlier frame lt).2 fun turn within same => other ?_).2⟩⟩
  have listed : ∀ turn < 4, due (body.filter (·.endsTick)) turn ∈ [0, 1, 4, 10] := by decide
  exact same ▸ listed turn within

end Sequencer.Script
