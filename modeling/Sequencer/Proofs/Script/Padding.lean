import Sequencer.Proofs.Script.Tame
import Sequencer.Proofs.Script.Writing
import Sequencer.Proofs.Track.Relocation

/-!
# Scripts behind padding

Calls of `nop` in front of a script move its labels, and so the targets of its jumps.
What is played stays the same, unless a jump that is left out shows the high byte of its
target.

* `Call.Movable` — the condition on a script: it jumps to labels, uses them for nothing
  else, and does not repeat.
* `labelsOf_padding_append` — where the labels are moved to.
* `Accepted.of_padding` — the script by itself is compiled to a routine, and the padded
  one to the moved routine.
* `events_of_padded` — when both play the same.
* `latePlay` — a script that plays a note of its own where it is padded enough.
-/

namespace Sequencer.Script

/-- Calls of `nop`. -/
def padding (count : Nat) : List Statement :=
  List.replicate count (.call ⟨Opcode.nop.mnemonic, [], default⟩)

/-- Whether a call does the same elsewhere: it is tame, uses labels only to jump to them, and does
not go back to the anchor. -/
structure Call.Movable (call : Call) : Prop extends call.Tame where
  labels : ∀ argument ∈ call.arguments, ∀ name, argument.value = .label name →
    ∃ condition, call.name = (Opcode.jump condition).mnemonic
  forward : ∀ condition, call.name ≠ (Opcode.repeatSection condition).mnemonic

def Movable (script : List Statement) : Prop :=
  ∀ call ∈ calls script, call.Movable

theorem Movable.tame {script : List Statement} (movable : Movable script) : Tame script :=
  fun call member => (movable call member).toTame

/-! ## Labels -/

/-- The labels moved on. -/
def Labels.shift (distance : Nat) (labels : Labels) : Labels :=
  labels.map fun (name, offset) => (name, offset + distance)

theorem Labels.lookup_shift (distance : Nat) (labels : Labels) (name : String) :
    (labels.shift distance).lookup name = (labels.lookup name).map (· + distance) := by
  induction labels with
  | nil => rfl
  | cons entry labels ih =>
    obtain ⟨other, offset⟩ := entry
    rw [shift, List.map_cons, List.lookup_cons, List.lookup_cons, ← shift, ih]
    split <;> rfl

theorem labelsOf_padding_append (count : Nat) (script : List Statement) :
    labelsOf (padding count ++ script) = (labelsOf script).shift count := by
  have moved : ∀ (part : List Statement) (layout layout' : Layout),
      layout'.offset = layout.offset + count → layout'.labels = layout.labels.shift count →
      (part.foldl Layout.place layout').labels =
        (part.foldl Layout.place layout).labels.shift count := by
    intro part
    induction part with
    | nil => intro layout layout' _ labels; exact labels
    | cons statement part ih =>
      intro layout layout' offset labels
      cases statement with
      | label name span => exact ih _ _ offset (by simp [Layout.place, offset, labels, Labels.shift])
      | call made =>
        refine ih _ _ ?_ labels
        simp only [Layout.place, offset]
        omega
  have size : (⟨Opcode.nop.mnemonic, [], default⟩ : Call).size = 1 := by decide
  rw [labelsOf, Layout.ofScript, List.foldl_append, padding, foldl_place_replicate_call, size]
  exact moved script {} _ (by simp) rfl

theorem definedNames_padding_append (count : Nat) (script : List Statement) :
    definedNames (padding count ++ script) = definedNames script := by
  simp [definedNames, padding]

@[simp] theorem calls_padding (count : Nat) :
    calls (padding count) = List.replicate count ⟨Opcode.nop.mnemonic, [], default⟩ := by
  simp [calls, padding, List.filterMap_replicate, Statement.call?]

theorem emitted_padding (labels : Labels) (count : Nat) :
    emitted labels (padding count) = List.replicate count 0 := by
  induction count with
  | zero => rfl
  | succ count ih =>
    have known : (⟨Opcode.nop.mnemonic, [], default⟩ : Call).directive labels =
        .ok (.emit .nop (.integer 0)) := (Makes.plain rfl rfl rfl).directive
    rw [padding, List.replicate_succ, emitted_call _ _ known, ← padding, ih]
    rfl

/-! ## Instructions -/

theorem relocate_ofOpcode {opcode : Opcode} (other : ∀ condition, opcode ≠ .jump condition)
    (distance : Nat) (narrow : UInt8) (wide : UInt16) :
    (Instruction.ofOpcode opcode narrow wide).relocate distance = .ofOpcode opcode narrow wide := by
  cases opcode with
  | jump condition => exact absurd rfl (other condition)
  | _ => rfl

/-- What a call makes of moved labels, it makes of the labels themselves, but for the distance. -/
theorem Makes.of_shift {labels : Labels} {call : Call} {directive : Directive} {distance : Nat}
    (makes : Makes (labels.shift distance) call directive) (movable : call.Movable) :
    ∃ near, Makes labels call near ∧
      directive.instructions = near.instructions.map (·.relocate distance) := by
  cases makes with
  | @data operands name given =>
    refine ⟨.data operands, .data name ?_, ?_⟩
    · refine given.imp fun argument operand value => ?_
      obtain ⟨number, known, same⟩ | ⟨_, _, -, wide, -⟩ := Argument.operand_eq_ok_iff.mp value
      · exact Argument.operand_eq_ok_iff.mpr (.inl ⟨number, known, same⟩)
      · cases wide
    · simp only [Directive.instructions, List.map_map]
      refine List.map_congr_left fun operand _ => ?_
      simp only [Function.comp_apply, Instruction.ofDataByte]
      split <;> rfl
  | @plain opcode name width given =>
    refine ⟨_, .plain name width given, ?_⟩
    have other : ∀ condition, opcode ≠ .jump condition := by
      rintro condition rfl
      cases width
    simp [Directive.instructions, relocate_ofOpcode other]
  | @operand opcode argument operand name width given value =>
    obtain ⟨number, known, same⟩ | ⟨label, offset, labelled, wide, found, rfl⟩ :=
      Argument.operand_eq_ok_iff.mp value
    · refine ⟨_, .operand name width given (Argument.operand_eq_ok_iff.mpr (.inl ⟨number, known, same⟩)),
        ?_⟩
      -- a jump has a label
      have other : ∀ condition, opcode ≠ .jump condition := by
        rintro condition rfl
        obtain ⟨label, labelled⟩ := movable.jumps condition name argument (by simp [given])
        rw [known] at labelled
        cases labelled
      simp [Directive.instructions, relocate_ofOpcode other]
    · -- a label has a jump
      obtain ⟨condition, jump⟩ := movable.labels argument (by simp [given]) label labelled
      obtain rfl := Opcode.mnemonic_injective (name.symm.trans jump)
      rw [Labels.lookup_shift] at found
      obtain ⟨origin, known, rfl⟩ := Option.map_eq_some_iff.mp found
      refine ⟨.emit (.jump condition) (.integer (origin : Nat)), .operand name width given
        (Argument.operand_eq_ok_iff.mpr (.inr ⟨label, origin, labelled, wide, known, rfl⟩)), ?_⟩
      simp only [Directive.instructions, Instruction.ofOpcode, Instruction.relocate, Operand.word,
        Operand.magnitude, Int.natAbs_natCast, UInt16.ofNat_add, List.map_cons, List.map_nil]

theorem Call.Movable.forward_of_makes {labels : Labels} {call : Call} {directive : Directive}
    (movable : call.Movable) (makes : Makes labels call directive) :
    ∀ instruction ∈ directive.instructions, instruction.Forward := by
  intro instruction member
  cases makes with
  | data name given =>
    obtain ⟨operand, -, rfl⟩ := List.mem_map.mp member
    unfold Instruction.ofDataByte
    split <;> trivial
  | @plain opcode name | @operand opcode _ _ name =>
    obtain rfl := List.mem_singleton.mp member
    cases opcode with
    | repeatSection condition => exact absurd name (movable.forward condition)
    | _ => trivial

theorem Movable.forward {script : List Statement} (movable : Movable script) {labels : Labels}
    {instruction : Instruction} (member : instruction ∈ instructionsOf labels script) :
    instruction.Forward := by
  obtain ⟨call, isCall, directive, makes, member⟩ := mem_instructionsOf member
  exact (movable call isCall).forward_of_makes makes instruction member

/-- The moved labels move the instructions. -/
theorem instructionsOf_shift {labels : Labels} {distance : Nat} {part : List Statement}
    (movable : Movable part) (made : ∀ call ∈ calls part, ∃ directive,
      call.directive (labels.shift distance) = .ok directive) :
    (∀ call ∈ calls part, ∃ directive, call.directive labels = .ok directive) ∧
      instructionsOf (labels.shift distance) part =
        (instructionsOf labels part).map (·.relocate distance) := by
  induction part with
  | nil => exact ⟨List.forall_mem_nil _, rfl⟩
  | cons statement part ih =>
    cases statement with
    | label name span => exact ih movable made
    | call call =>
      obtain ⟨movable', movable⟩ := List.forall_mem_cons.mp movable
      obtain ⟨⟨directive, known⟩, made⟩ := List.forall_mem_cons.mp made
      obtain ⟨near, makes, moved⟩ := (Call.directive_eq_ok_iff.mp known).of_shift movable'
      obtain ⟨made', rest⟩ := ih movable made
      refine ⟨List.forall_mem_cons.mpr ⟨⟨near, makes.directive⟩, made'⟩, ?_⟩
      rw [instructionsOf_call part known, instructionsOf_call part makes.directive, List.map_append,
        moved, rest]

/-! ## Both scripts -/

variable {script : List Statement} {far : Bytecode} {count : Nat}

/-- By itself a script that is accepted behind padding is compiled as well, to instructions that
are moved by the padding. -/
theorem Accepted.of_padding (accepted : Accepted (padding count ++ script) far)
    (movable : Movable script) :
    ∃ code, Accepted script code ∧ far.toList = List.replicate count 0 ++
      bytesOf ((instructionsOf (labelsOf script) script ++ [Instruction.halt]).map
        (·.relocate count)) := by
  obtain ⟨unique, made, bytes⟩ := accepted
  rw [labelsOf_padding_append] at made bytes
  rw [calls_append] at made
  obtain ⟨made', moved⟩ := instructionsOf_shift movable fun call member =>
    made call (List.mem_append_right _ member)
  refine ⟨⟨_⟩, ⟨?_, made', rfl⟩, ?_⟩
  · rw [definedNames_padding_append] at unique
    exact unique
  · rw [bytes, emitted_append, emitted_padding, ← bytesOf_instructionsOf, moved, List.map_append,
      bytesOf_append, List.append_assoc]
    rfl

/-- What a padded script plays.  Both scripts are compiled, and raise the same events, in frames
that lie as far apart as there are calls of `nop`, as long as the script by itself leaves out only
jumps whose target has a high byte that is kept over the distance and stands alone.  In at most 256
bytes all are like that. -/
theorem events_of_padded {padded : List Statement}
    (same : padded.map Statement.bare = (padding count ++ script).map Statement.bare)
    (compiled : compile padded = .ok far) (movable : Movable script) (short : far.size < 65536) :
    let instructions := instructionsOf (labelsOf script) script ++ [.halt]
    ∃ code, compile script = .ok code ∧ code.toList = bytesOf instructions ∧
      far.toList = List.replicate count 0 ++ bytesOf (instructions.map (·.relocate count)) ∧
      (∀ frames, (∀ frame < frames, ∀ state ∈ ({} : Track).fetchingAt code frame,
          state.SkipsSafely count instructions) →
        (({} : Track).run far (List.replicate (frames + count) .dispatch)).2 =
          (({} : Track).run code (List.replicate frames .dispatch)).2) ∧
      (far.size ≤ 256 → ∀ frames,
        (({} : Track).run far (List.replicate (frames + count) .dispatch)).2 =
          (({} : Track).run code (List.replicate frames .dispatch)).2) := by
  dsimp only
  have accepted : Accepted (padding count ++ script) far := by
    rw [← accepted_map_bare_iff, ← same, accepted_map_bare_iff]
    exact compile_eq_ok_iff.mp compiled
  obtain ⟨code, near, layout'⟩ := accepted.of_padding movable
  have size : far.size = count + code.size := by
    rw [← Array.length_toList, layout', List.length_append, List.length_replicate,
      length_bytesOf_relocate, near.length_bytesOf]
  obtain ⟨routine, body, bytes⟩ := near.exists_routine_body movable.tame (by omega)
  have total := Routine.size_eq bytes
  rw [← body] at layout' ⊢
  have events := fun frames => @routine.events_of_zeros code far count bytes.symm layout' (by omega)
    (fun instruction member => movable.forward (body ▸ member)) frames
  refine ⟨code, compile_eq_ok_iff.mpr near, bytes.symm, layout', events, ?_⟩
  intro small frames
  refine events frames fun _ _ state _ condition target starts _ => ?_
  -- a target is an instruction of the script, so the padding moves it below 256 as well
  obtain ⟨first, reached⟩ := Routine.targets_of_starts starts
  have low := (Routine.Inside.start reached).lt_size
  exact highKept_of_lt (by omega)

/-! ## A jump that is left out -/

theorem Call.movable_of_jump (condition : Condition) (label : String) (place span : Span) :
    (⟨(Opcode.jump condition).mnemonic, [⟨.label label, place⟩], span⟩ : Call).Movable := by
  refine ⟨Call.tame_of_jump rfl (List.forall_mem_singleton.mpr ⟨label, rfl⟩),
    fun _ _ _ _ => ⟨_, rfl⟩, ?_⟩
  · intro other same
    cases Opcode.mnemonic_injective same

theorem Call.movable_of_play (pitch : Int) (place span : Span) :
    (⟨Opcode.play.mnemonic, [⟨.number pitch, place⟩], span⟩ : Call).Movable := by
  refine ⟨Call.tame_of_opcode (show _ = Opcode.play.mnemonic from rfl) (by simp), ?_, ?_⟩
  · intro argument given label labelled
    obtain rfl := List.mem_singleton.mp given
    cases labelled
  · intro condition same
    cases Opcode.mnemonic_injective (show Opcode.play.mnemonic = _ from same)

/-- The script `ifjump(end) play(1) end: play(2)`. -/
def leftOutJump : List Statement :=
  [.call ⟨"ifjump", [⟨.label "end", ⟨7, 10⟩⟩], ⟨0, 11⟩⟩,
    .call ⟨"play", [⟨.number 1, ⟨17, 18⟩⟩], ⟨12, 19⟩⟩,
    .label "end" ⟨20, 24⟩,
    .call ⟨"play", [⟨.number 2, ⟨30, 31⟩⟩], ⟨25, 32⟩⟩]

theorem movable_leftOutJump : Movable leftOutJump := by
  intro call member
  simp only [leftOutJump, calls, List.filterMap_cons, Statement.call?, List.filterMap_nil,
    List.mem_cons, List.not_mem_nil, or_false] at member
  obtain rfl | rfl | rfl := member
  · exact Call.movable_of_jump .ifSet _ _ _
  · exact Call.movable_of_play _ _ _
  · exact Call.movable_of_play _ _ _

theorem events_paddedLeftOutJump :
    let instructions : List Instruction := [.jump .ifSet 5, .play 1, .play 2, .halt]
    let code : Bytecode := #[0xFD, 5, 0, 0xE7, 1, 0xE7, 2, 0xFF]
    let far : Bytecode := #[0, 0, 0xFD, 7, 0, 0xE7, 1, 0xE7, 2, 0xFF]
    compile (padding 2 ++ leftOutJump) = .ok far ∧ Movable leftOutJump ∧
      instructionsOf (labelsOf leftOutJump) leftOutJump ++ [.halt] = instructions ∧
      (∀ state : TrackState, state.SkipsSafely 2 instructions) ∧
      ∀ frames, (({} : Track).run far (List.replicate (frames + 2) .dispatch)).2 =
        (({} : Track).run code (List.replicate frames .dispatch)).2 := by
  intro instructions code far
  have compiled : compile (padding 2 ++ leftOutJump) = .ok far := by decide
  have decoded : instructionsOf (labelsOf leftOutJump) leftOutJump ++ [.halt] = instructions := by
    decide
  have skips : ∀ state : TrackState, state.SkipsSafely 2 instructions := by
    intro state condition target starts _
    obtain ⟨rfl, rfl⟩ : condition = .ifSet ∧ target = 5 := by simpa [instructions] using starts.mem
    exact highKept_of_lt (by decide)
  obtain ⟨code', near, -, -, events, -⟩ :=
    events_of_padded rfl compiled movable_leftOutJump (by decide)
  have own : compile leftOutJump = .ok code := by decide
  obtain rfl := Except.ok.inj (own.symm.trans near)
  rw [decoded] at events
  exact ⟨compiled, movable_leftOutJump, decoded, skips, fun frames =>
    events frames fun _ _ state _ => skips state⟩

/-- The script `ifjump(end) end:`. -/
def latePlay : List Statement :=
  [.call ⟨"ifjump", [⟨.label "end", ⟨7, 10⟩⟩], ⟨0, 11⟩⟩, .label "end" ⟨12, 16⟩]

theorem movable_latePlay : Movable latePlay := by
  intro call member
  obtain rfl := List.mem_singleton.mp member
  exact Call.movable_of_jump .ifSet _ _ _

theorem accepted_padding_latePlay (count : Nat) :
    ∃ far, Accepted (padding count ++ latePlay) far := by
  refine ⟨⟨_⟩, ?_, ?_, rfl⟩
  · rw [definedNames_padding_append]
    decide
  · have labels : labelsOf (padding count ++ latePlay) = [("end", 3 + count)] := by
      rw [labelsOf_padding_append]
      rfl
    rw [labels, calls_append, calls_padding]
    intro call member
    obtain nop | member := List.mem_append.mp member
    · obtain ⟨-, rfl⟩ := List.mem_replicate.mp nop
      exact ⟨.emit .nop (.integer 0), rfl⟩
    · obtain rfl := List.mem_singleton.mp member
      exact ⟨.emit (.jump .ifSet) (.integer (3 + count : Nat)), rfl⟩

/-- Behind 253 calls of `nop` the target has the high byte 1, which is played as a note. -/
theorem latePlay_plays_high_byte :
    Movable latePlay ∧ ∃ code far, compile latePlay = .ok code ∧
      compile (padding 253 ++ latePlay) = .ok far ∧ far.size < 65536 ∧
      (({} : Track).run far (List.replicate (1 + 253) .dispatch)).2 = [.play 1] ∧
      (({} : Track).run code (List.replicate 1 .dispatch)).2 = [] := by
  obtain ⟨far, accepted⟩ := accepted_padding_latePlay 253
  obtain ⟨code, near, layout⟩ := accepted.of_padding movable_latePlay
  have moved : (instructionsOf (labelsOf latePlay) latePlay ++ [Instruction.halt]).map
      (·.relocate 253) = [.jump .ifSet 256, .halt] := by
    decide
  rw [moved] at layout
  obtain rfl : far = Array.replicate 253 0 ++ #[0xFD, 0, 1, 0xFF] := by
    rw [← Array.toList_inj, layout]
    simp only [Array.toList_append, Array.toList_replicate]
    rfl
  have compiled : compile latePlay = .ok #[0xFD, 3, 0, 0xFF] := by decide
  refine ⟨movable_latePlay, _, _, compiled, compile_eq_ok_iff.mpr accepted, by simp, ?_, by decide⟩
  rw [run_of_zeros layout (by decide)]
  decide +kernel

end Sequencer.Script
