import Sequencer.Proofs.Script.Emission
import Sequencer.Track

/-!
# Where jumps to labels lead

A label stands for the number of bytes emitted before its definition, but a jump
carries only the lowest 16 bits of it.  So a jump reaches its label exactly if the
label lies within the reach of a cursor.

* `Accepted.label_eq_length_emitted` — the offset of a label.
* `Accepted.decode_jump` — what a jump to a label is decoded as.
-/

namespace Sequencer.Script

variable {script : List Statement} {code : Bytecode}

/-- In a list without repeated names there is one place for a definition. -/
theorem eq_of_label_eq_label {name : String} {span span' : Span}
    {before before' after after' : List Statement} (unique : (definedNames script).Nodup)
    (split : script = before ++ .label name span :: after)
    (split' : script = before' ++ .label name span' :: after') : before' = before := by
  have once : name ∉ definedNames before ∧ name ∉ definedNames after := by
    rw [split, definedNames, List.filterMap_append, List.filterMap_cons] at unique
    simpa [List.nodup_middle, definedNames] using (List.nodup_cons.mp (List.nodup_middle.mp unique)).1
  have defined : ∀ (first second : List Statement) (place : Span),
      name ∈ definedNames (first ++ .label name place :: second) := by
    intro first second place
    simp [definedNames]
  -- of two places one lies in front of the other, and then there is a second definition
  obtain ⟨between, rfl, same⟩ | ⟨between, rfl, same⟩ :=
    List.append_eq_append_iff.mp (split.symm.trans split')
  · cases between with
    | nil => simp
    | cons statement between =>
      rw [List.cons_append, List.cons.injEq] at same
      exact absurd (same.2 ▸ defined between after' span') once.2
  · cases between with
    | nil => simp
    | cons statement between =>
      rw [List.cons_append, List.cons.injEq] at same
      exact absurd (same.1 ▸ defined before' between span') once.1

/-- A label is laid out where the calls in front of its definition end. -/
theorem lookup_labelsOf (unique : (definedNames script).Nodup) {name : String} {span : Span}
    {before after : List Statement} (split : script = before ++ .label name span :: after) :
    (labelsOf script).lookup name = some (extent before) := by
  have defined : name ∈ definedNames script := by simp [split, definedNames]
  obtain ⟨offset, found⟩ := Option.isSome_iff_exists.mp (isSome_lookup_labelsOf_iff.mpr defined)
  obtain ⟨before', span', after', split', reached⟩ := exists_split_of_lookup_labelsOf found
  rw [found, reached, eq_of_label_eq_label unique split split']

theorem Accepted.label_eq_length_emitted (accepted : Accepted script code) {name : String}
    {offset : Nat} (found : (labelsOf script).lookup name = some offset) :
    ∃ before span after, script = before ++ .label name span :: after ∧
      offset = (emitted (labelsOf script) before).length := by
  obtain ⟨before, span, after, split, reached⟩ := exists_split_of_lookup_labelsOf found
  have made : ∀ call ∈ calls before,
      ∃ directive, call.directive (labelsOf script) = .ok directive :=
    fun call member => accepted.made call (calls_subset_of_append split member)
  exact ⟨before, span, after, split, reached.trans (length_emitted made).symm⟩

/-- The labels that calls use are defined. -/
theorem Accepted.mem_definedNames (accepted : Accepted script code) {call : Call}
    (member : call ∈ calls script) {argument : Argument} (given : argument ∈ call.arguments)
    {name : String} (labelled : argument.value = .label name) : name ∈ definedNames script := by
  obtain ⟨directive, known⟩ := accepted.made call member
  rw [← isSome_lookup_labelsOf_iff]
  cases Call.directive_eq_ok_iff.mp known with
  | plain _ _ none =>
    rw [none] at given
    cases given
  | data _ operands =>
    obtain ⟨operand, -, value⟩ := exists_of_mem_of_forall₂ operands.flip given
    obtain ⟨number, wrong, -⟩ | ⟨_, _, -, wide, -⟩ := Argument.operand_eq_ok_iff.mp value
    · rw [labelled] at wrong
      cases wrong
    · cases wide
  | operand _ _ single value =>
    rw [single] at given
    obtain rfl := List.mem_singleton.mp given
    obtain ⟨number, wrong, -⟩ | ⟨_, _, same, -, found, -⟩ := Argument.operand_eq_ok_iff.mp value
    · rw [labelled] at wrong
      cases wrong
    · obtain rfl : name = _ := by simpa [labelled] using same
      simp [found]

theorem Accepted.toList_eq (accepted : Accepted script code) {before after : List Statement}
    {made : Call} {directive : Directive} (placed : script = before ++ .call made :: after)
    (known : made.directive (labelsOf script) = .ok directive) :
    code.toList = emitted (labelsOf script) before ++ (directive.encode ++
      (emitted (labelsOf script) after ++ [Opcode.halt.byte])) := by
  have parts : emitted (labelsOf script) script = emitted (labelsOf script) before ++
      (directive.encode ++ emitted (labelsOf script) after) := by
    conv_lhs => rw [placed]
    rw [emitted_append, ← placed, emitted_call _ _ known]
  rw [accepted.bytes, parts]
  simp

theorem Accepted.decode_jump (accepted : Accepted script code) {before after : List Statement}
    {made : Call} {condition : Condition} {argument : Argument} {name : String}
    (placed : script = before ++ .call made :: after)
    (mnemonic : made.name = (Opcode.jump condition).mnemonic)
    (given : made.arguments = [argument]) (labelled : argument.value = .label name) :
    ∃ offset, (labelsOf script).lookup name = some offset ∧
      code.decode (emitted (labelsOf script) before).length =
        .jump condition (UInt16.ofNat offset) := by
  obtain ⟨directive, known⟩ := accepted.made made (by simp [placed, calls, Statement.call?])
  have layout := accepted.toList_eq placed known
  cases Call.directive_eq_ok_iff.mp known with
  | data data given => exact absurd (mnemonic.symm.trans data) (mnemonic_ne_dataMnemonic _)
  | plain name width none => simp [given] at none
  | @operand opcode argument' operand name' width given' value =>
    -- a mnemonic belongs to one opcode only
    obtain rfl := Opcode.mnemonic_injective (name'.symm.trans mnemonic)
    obtain rfl : argument' = argument := by simpa [given] using given'.symm
    obtain ⟨number, wrong, -⟩ | ⟨label, offset, same, -, found, rfl⟩ :=
      Argument.operand_eq_ok_iff.mp value
    · simp [labelled] at wrong
    · obtain rfl : name = label := by simpa [labelled] using same
      refine ⟨offset, found, ?_⟩
      simp only [Directive.encode] at layout
      rw [Bytecode.decode_opcode_encode layout, Instruction.ofOpcode, Operand.word]
      rfl

theorem cursor_execute_jump {track : Track} {condition : Condition} {target : UInt16}
    (fetched : track.fetch code track.state.cursor = .jump condition target)
    (taken : condition.holds track.state.flag = true) :
    (track.state.execute track.config.arithmetic (track.fetch code track.state.cursor)).1.cursor =
      target := by
  simp [fetched, TrackState.execute, TrackState.branch, taken]

/-- In a compiled script every jump to a label has one definition to go to.  Where a track comes
upon the jump and takes it, it ends up behind the bytes emitted before that definition exactly if
they are fewer than 65536. -/
theorem taken_jump_reaches_label_iff {before after : List Statement} {made : Call}
    {condition : Condition} {argument : Argument} {name : String}
    (compiled : compile script = .ok code) (placed : script = before ++ .call made :: after)
    (mnemonic : made.name = (Opcode.jump condition).mnemonic)
    (given : made.arguments = [argument]) (labelled : argument.value = .label name) :
    ∃ upTo span rest, script = upTo ++ .label name span :: rest ∧
      (∀ upTo' span' rest', script = upTo' ++ .label name span' :: rest' → upTo' = upTo) ∧
      code.decode (emitted (labelsOf script) before).length =
        .jump condition (UInt16.ofNat (emitted (labelsOf script) upTo).length) ∧
      ∀ track : Track, track.base = 0 →
        track.state.cursor.toNat = (emitted (labelsOf script) before).length →
        condition.holds track.state.flag = true →
        ((track.state.execute track.config.arithmetic
            (track.fetch code track.state.cursor)).1.cursor.toNat =
            (emitted (labelsOf script) upTo).length ↔
          (emitted (labelsOf script) upTo).length < 65536) := by
  have accepted := compile_eq_ok_iff.mp compiled
  obtain ⟨offset, found, decoded⟩ := accepted.decode_jump placed mnemonic given labelled
  obtain ⟨upTo, span, rest, split, rfl⟩ := accepted.label_eq_length_emitted found
  refine ⟨upTo, span, rest, split, ?_, decoded, ?_⟩
  · intro upTo' span' rest' split'
    exact eq_of_label_eq_label accepted.unique split split'
  · intro track base cursor taken
    have fetched : track.fetch code track.state.cursor =
        .jump condition (UInt16.ofNat (emitted (labelsOf script) upTo).length) := by
      rw [Track.fetch, base, cursor]
      simpa using decoded
    rw [cursor_execute_jump fetched taken, UInt16.toNat_ofNat']
    omega

/-- The script `jump(end) play(1) end: play(2)`. -/
def forwardJump : List Statement :=
  [.call ⟨"jump", [⟨.label "end", ⟨5, 8⟩⟩], ⟨0, 9⟩⟩,
    .call ⟨"play", [⟨.number 1, ⟨15, 16⟩⟩], ⟨10, 17⟩⟩,
    .label "end" ⟨18, 22⟩,
    .call ⟨"play", [⟨.number 2, ⟨28, 29⟩⟩], ⟨23, 30⟩⟩]

theorem forwardJump_reaches_label :
    compile forwardJump = .ok #[0xFE, 5, 0, 0xE7, 1, 0xE7, 2, 0xFF] ∧
    ∃ upTo span rest, forwardJump = upTo ++ .label "end" span :: rest ∧
      (∀ upTo' span' rest', forwardJump = upTo' ++ .label "end" span' :: rest' → upTo' = upTo) ∧
      Bytecode.decode #[0xFE, 5, 0, 0xE7, 1, 0xE7, 2, 0xFF] 0 =
        .jump .always (UInt16.ofNat (emitted (labelsOf forwardJump) upTo).length) ∧
      ((({} : Track).state.execute .wrapping
          (({} : Track).fetch #[0xFE, 5, 0, 0xE7, 1, 0xE7, 2, 0xFF] 0)).1.cursor.toNat =
          (emitted (labelsOf forwardJump) upTo).length ↔
        (emitted (labelsOf forwardJump) upTo).length < 65536) := by
  have compiled : compile forwardJump = .ok #[0xFE, 5, 0, 0xE7, 1, 0xE7, 2, 0xFF] := by decide
  refine ⟨compiled, ?_⟩
  have placed : forwardJump = [] ++ .call ⟨"jump", [⟨.label "end", ⟨5, 8⟩⟩], ⟨0, 9⟩⟩ ::
      forwardJump.tail := rfl
  have mnemonic : "jump" = (Opcode.jump .always).mnemonic := rfl
  obtain ⟨upTo, span, rest, split, unique, decoded, lands⟩ :=
    taken_jump_reaches_label_iff compiled placed mnemonic rfl rfl
  exact ⟨upTo, span, rest, split, unique, decoded, lands {} rfl rfl rfl⟩

/-- A jump to the end of a script, over a number of `nop()` calls. -/
def paddedJump (count : Nat) : List Statement :=
  .call ⟨"jump", [⟨.label "end", ⟨5, 8⟩⟩], ⟨0, 9⟩⟩ ::
    (List.replicate count (.call ⟨"nop", [], ⟨10, 15⟩⟩) ++ [.label "end" ⟨16, 20⟩])

theorem ofScript_paddedJump (count : Nat) :
    Layout.ofScript (paddedJump count) =
      { offset := 3 + count, labels := [("end", 3 + count)], repeated := [] } := by
  have one : (⟨"nop", [], ⟨10, 15⟩⟩ : Call).size = 1 := by decide
  have size : (⟨"jump", [⟨.label "end", ⟨5, 8⟩⟩], ⟨0, 9⟩⟩ : Call).size = 3 := by decide
  simp [Layout.ofScript, paddedJump, foldl_place_replicate_call, Layout.place, size, one]

theorem accepted_paddedJump (count : Nat) : ∃ code, Accepted (paddedJump count) code := by
  have nops : calls (List.replicate count (.call ⟨"nop", [], ⟨10, 15⟩⟩)) =
      List.replicate count ⟨"nop", [], ⟨10, 15⟩⟩ := by
    simp [calls, List.filterMap_replicate, Statement.call?]
  have names : definedNames (paddedJump count) = ["end"] := by
    simp [definedNames, paddedJump]
  have labels : labelsOf (paddedJump count) = [("end", 3 + count)] := by
    rw [labelsOf, ofScript_paddedJump]
  refine ⟨⟨_⟩, by simp [names], ?_, rfl⟩
  intro call member
  rw [labels]
  simp only [paddedJump, calls, List.filterMap_cons, List.filterMap_append, Statement.call?,
    List.mem_cons, List.mem_append] at nops member
  obtain rfl | nop | none := member
  · exact ⟨.emit (.jump .always) (.integer (3 + count : Nat)), rfl⟩
  · rw [nops] at nop
    obtain ⟨-, rfl⟩ := List.mem_replicate.mp nop
    exact ⟨.emit .nop (.integer 0), rfl⟩
  · cases none

/-- One byte too far: the label lies at 65536, and the jump leads back to itself. -/
theorem paddedJump_misses_label :
    ∃ code, compile (paddedJump 65533) = .ok code ∧
      (emitted (labelsOf (paddedJump 65533)) (paddedJump 65533).dropLast).length = 65536 ∧
      (({} : Track).state.execute .wrapping (({} : Track).fetch code 0)).1.cursor = 0 := by
  obtain ⟨code, accepted⟩ := accepted_paddedJump 65533
  have found : (labelsOf (paddedJump 65533)).lookup "end" = some 65536 := by
    rw [labelsOf, ofScript_paddedJump]
    rfl
  have mnemonic : "jump" = (Opcode.jump .always).mnemonic := rfl
  have placed : paddedJump 65533 = [] ++ .call ⟨"jump", [⟨.label "end", ⟨5, 8⟩⟩], ⟨0, 9⟩⟩ ::
      (paddedJump 65533).tail := rfl
  have split : paddedJump 65533 = (paddedJump 65533).dropLast ++ .label "end" ⟨16, 20⟩ :: [] := by
    rw [paddedJump, ← List.cons_append, List.dropLast_concat]
  refine ⟨code, compile_eq_ok_iff.mpr accepted, ?_, ?_⟩
  · obtain ⟨before, span, after, split', reached⟩ :=
      accepted.label_eq_length_emitted found
    rw [← eq_of_label_eq_label accepted.unique split split', ← reached]
  · obtain ⟨offset, found', decoded⟩ := accepted.decode_jump placed mnemonic rfl rfl
    obtain rfl : 65536 = offset := Option.some.inj (found.symm.trans found')
    exact cursor_execute_jump decoded rfl

end Sequencer.Script
