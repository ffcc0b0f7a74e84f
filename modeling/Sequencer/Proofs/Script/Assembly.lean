import Sequencer.Proofs.Invocation
import Sequencer.Proofs.Script.LabelTargets
import Sequencer.Proofs.Script.Writing
import Sequencer.Rejection

/-!
# Scripts and the methods of the assembler

A script can be assembled by hand as well: for each call one calls the method of the same
name, and for a label one writes the length that the assembler has where the label is
defined.  For a label that is used ahead of its definition that length has to be known
beforehand, so it is guessed, and the guess is checked when the definition is reached.

* `Assembles` — assembling a part of a script by hand, with the lengths that are taken for
  the labels.
* `Proper` — the scripts that can be.
* `Call.Proper.exists_directive` — method and compiler agree on a single call.
* `compileSource_of_assembles` — and so on whole scripts, however they are written.
-/

namespace Sequencer

namespace Script

/-! ## Assembling by hand -/

/-- What is given to a method for a value, if a label is taken to stand for a length. -/
def Value.operand (lengths : String → Nat) : Value → Operand
  | .number value => .integer value
  | .label name => .integer (lengths name)

def Call.operands (lengths : String → Nat) (call : Call) : List Operand :=
  call.arguments.map (·.value.operand lengths)

/-- Assembles statements: from the first assembler one comes to the last by calling methods, and at
each definition of a label the assembler has the length that is taken for it. -/
inductive Assembles (lengths : String → Nat) : List Statement → Assembler → Assembler → Prop where
  | nil {assembler : Assembler} : Assembles lengths [] assembler assembler
  | label {name : String} {span : Span} {script : List Statement} {assembler last : Assembler}
      (length : lengths name = assembler.size) (rest : Assembles lengths script assembler last) :
      Assembles lengths (.label name span :: script) assembler last
  | call {made : Call} {script : List Statement} {assembler next last : Assembler}
      (called : assembler.invoke? made.name (made.operands lengths) = some next)
      (rest : Assembles lengths script next last) :
      Assembles lengths (.call made :: script) assembler last

/-- Whether a value is a number that a script can write, so its magnitude is less than `2 ^ 63`. -/
def Value.IsNumber (value : Value) : Prop :=
  ∃ number : Int, value = .number number ∧ number.natAbs ≤ greatestMagnitude

/-- Whether a call is one of raw bytes, or of a mnemonic with as many arguments as it takes, where
words may be given as one of the labels. -/
inductive Call.Proper (labels : List String) (call : Call) : Prop where
  | data (name : call.name = dataMnemonic)
      (given : ∀ argument ∈ call.arguments, argument.value.IsNumber)
  | mnemonic (opcode : Opcode) (name : call.name = opcode.mnemonic)
      (arity : call.arguments.length = opcode.arity)
      (given : ∀ argument ∈ call.arguments, argument.value.IsNumber ∨
        opcode.width = .word ∧ ∃ label ∈ labels, argument.value = .label label)

/-- Whether a script defines each label once, under a name, and all its calls are proper. -/
structure Proper (script : List Statement) : Prop where
  unique : (definedNames script).Nodup
  named : ∀ name ∈ definedNames script, isName name = true
  calls : ∀ call ∈ calls script, call.Proper (definedNames script)

/-! ## One call -/

theorem Value.IsNumber.operand_eq {argument : Argument} (number : argument.value.IsNumber)
    (lengths : String → Nat) (labels : Labels) (width : Width) :
    argument.operand labels width = .ok (argument.value.operand lengths) := by
  obtain ⟨number, value, -⟩ := number
  rw [Argument.operand_eq_ok_iff, value]
  exact .inl ⟨number, rfl, rfl⟩

theorem operand_of_label {argument : Argument} {label : String} {lengths : String → Nat}
    {labels : Labels} (value : argument.value = .label label)
    (known : labels.lookup label = some (lengths label)) :
    argument.operand labels .word = .ok (argument.value.operand lengths) := by
  rw [Argument.operand_eq_ok_iff, value]
  exact .inr ⟨label, lengths label, rfl, rfl, known, rfl⟩

/-- The method writes a directive, and where labels are laid out at the lengths they are taken for,
the compiler makes the same of the call. -/
theorem Call.Proper.exists_directive {names : List String} {call : Call}
    (proper : call.Proper names) (lengths : String → Nat) :
    ∃ directive : Directive, directive.size = call.size ∧
      (∀ assembler : Assembler,
        assembler.invoke? call.name (call.operands lengths) = some (assembler.write directive)) ∧
      ∀ labels : Labels, (∀ name ∈ names, labels.lookup name = some (lengths name)) →
        Makes labels call directive := by
  cases proper with
  | data name given =>
    refine ⟨.data (call.operands lengths), ?_, fun assembler => ?_, fun labels _ => ?_⟩
    · simp [Directive.size, Call.size, name, Call.operands]
    · rw [name]
      exact assembler.invoke?_data _
    · refine .data name (List.forall₂_map_right_iff.mpr (List.forall₂_same.mpr ?_))
      exact fun argument member => (given argument member).operand_eq lengths labels _
  | mnemonic opcode name arity given =>
    have called : (call.operands lengths).length = opcode.arity := by
      rw [Call.operands, List.length_map, arity]
    refine ⟨.emit opcode ((call.operands lengths).headD (.integer 0)), ?_, fun assembler => ?_,
      fun labels known => ?_⟩
    · simp [Directive.size, Call.size, name, mnemonic_ne_dataMnemonic]
    · rw [name]
      exact assembler.invoke?_mnemonic called
    -- without an argument the method writes an operand of 0, as the compiler does
    · obtain ⟨narrow, none⟩ | ⟨wide, argument, only⟩ := Opcode.given_cases arity
      · rw [Call.operands, none]
        exact .plain name narrow none
      · rw [Call.operands, only]
        refine .operand name wide only ?_
        obtain number | ⟨word, label, listed, value⟩ :=
          given argument (only ▸ List.mem_singleton_self argument)
        · exact number.operand_eq lengths labels _
        · rw [word]
          exact operand_of_label value (known label listed)

/-! ## Whole scripts -/

section Parts

variable {names : List String} {lengths : String → Nat} {part : List Statement}
  {first last : Assembler}

/-- Lengths grow by what calls take, whatever labels are taken to be. -/
theorem Assembles.size_eq (assembles : Assembles lengths part first last)
    (proper : ∀ call ∈ calls part, call.Proper names) :
    last.size = first.size + extent part := by
  induction assembles with
  | nil => rfl
  | label _ _ ih => exact ih proper
  | @call made script assembler next last called rest ih =>
    obtain ⟨here, later⟩ := List.forall_mem_cons.mp proper
    obtain ⟨directive, size, invoked, -⟩ := here.exists_directive lengths
    obtain rfl := Option.some.inj (called.symm.trans (invoked assembler))
    rw [ih later, Assembler.size_write, size, extent, Nat.add_assoc]

theorem Assembles.of_append {before after : List Statement}
    (assembles : Assembles lengths (before ++ after) first last) :
    ∃ middle, Assembles lengths before first middle ∧ Assembles lengths after middle last := by
  induction before generalizing first with
  | nil => exact ⟨first, .nil, assembles⟩
  | cons statement before ih =>
    cases assembles with
    | label length rest =>
      obtain ⟨middle, front, back⟩ := ih rest
      exact ⟨middle, .label length front, back⟩
    | call called rest =>
      obtain ⟨middle, front, back⟩ := ih rest
      exact ⟨middle, .call called front, back⟩

/-- The bytes are those that the compiler emits where the labels are laid out like that. -/
theorem Assembles.toList_bytes (assembles : Assembles lengths part first last)
    (proper : ∀ call ∈ calls part, call.Proper names) {labels : Labels}
    (known : ∀ name ∈ names, labels.lookup name = some (lengths name)) :
    last.bytes.toList = first.bytes.toList ++ emitted labels part := by
  induction assembles with
  | nil => exact (List.append_nil _).symm
  | label _ _ ih => exact ih proper
  | @call made script assembler next last called rest ih =>
    obtain ⟨here, later⟩ := List.forall_mem_cons.mp proper
    obtain ⟨directive, -, invoked, makes⟩ := here.exists_directive lengths
    obtain rfl := Option.some.inj (called.symm.trans (invoked assembler))
    rw [ih later, Assembler.toList_bytes_write, emitted_call labels script (makes labels known).directive,
      List.append_assoc]

end Parts

section Scripts

variable {script : List Statement}

/-- The lengths that are checked at the definitions are the offsets of the labels. -/
theorem Proper.lookup_eq (proper : Proper script) {lengths : String → Nat} {last : Assembler}
    (assembles : Assembles lengths script {} last) :
    ∀ name ∈ definedNames script, (labelsOf script).lookup name = some (lengths name) := by
  intro name defined
  obtain ⟨offset, found⟩ := Option.isSome_iff_exists.mp (isSome_lookup_labelsOf_iff.mpr defined)
  obtain ⟨before, span, after, split, reached⟩ := exists_split_of_lookup_labelsOf found
  rw [split] at assembles
  obtain ⟨middle, front, back⟩ := assembles.of_append
  have calls : ∀ call ∈ Script.calls before, call.Proper (definedNames script) :=
    fun call member => proper.calls call (calls_subset_of_append split member)
  cases back with
  | label length _ =>
    -- what is in front of the definition is as long as the first pass of the compiler says
    rw [found, reached, length, front.size_eq calls]
    exact congrArg some (Nat.zero_add _).symm

theorem Proper.exists_assembles (proper : Proper script) :
    ∃ lengths last, Assembles lengths script {} last := by
  -- the first pass of the compiler knows what to take for the labels
  refine ⟨fun name => ((labelsOf script).lookup name).getD 0, ?_⟩
  have general : ∀ (before after : List Statement) (first : Assembler),
      script = before ++ after → first.size = extent before →
      ∃ last, Assembles (fun name => ((labelsOf script).lookup name).getD 0) after first last := by
    intro before after
    induction after generalizing before with
    | nil => exact fun first _ _ => ⟨first, .nil⟩
    | cons statement after ih =>
      intro first split size
      have shifted : script = (before ++ [statement]) ++ after := by simp [split]
      cases statement with
      | label name span =>
        obtain ⟨last, rest⟩ := ih _ first shifted (by rw [size, extent_append]; rfl)
        refine ⟨last, .label ?_ rest⟩
        rw [lookup_labelsOf proper.unique split, size]
        rfl
      | call made =>
        have member : made ∈ Script.calls script := by simp [split, Script.calls, Statement.call?]
        obtain ⟨directive, same, invoked, -⟩ := (proper.calls made member).exists_directive
          fun name => ((labelsOf script).lookup name).getD 0
        have reached : (first.write directive).size = extent (before ++ [.call made]) := by
          rw [Assembler.size_write, size, same, extent_append]
          rfl
        obtain ⟨last, rest⟩ := ih _ (first.write directive) shifted reached
        exact ⟨last, .call (invoked first) rest⟩
  exact general [] script {} rfl rfl

theorem Proper.accepted (proper : Proper script) {lengths : String → Nat} {last : Assembler}
    (assembles : Assembles lengths script {} last) : Accepted script last.halt.bytes := by
  have known := proper.lookup_eq assembles
  refine ⟨proper.unique, fun call member => ?_, ?_⟩
  · obtain ⟨directive, -, -, makes⟩ := (proper.calls call member).exists_directive lengths
    exact ⟨directive, (makes _ known).directive⟩
  · have halted : last.halt.bytes.toList = last.bytes.toList ++ [Opcode.halt.byte] :=
      last.toList_bytes_write (.emit .halt (.integer 0))
    rw [halted, assembles.toList_bytes proper.calls known]
    rfl

theorem Value.IsNumber.writable {value : Value} (number : value.IsNumber) : value.Writable := by
  obtain ⟨number, rfl, fits⟩ := number
  exact fits

theorem Proper.writable (proper : Proper script) : ∀ statement ∈ script, statement.Writable := by
  intro statement member
  cases statement with
  | label name span =>
    exact nameText_of_isName (proper.named name (List.mem_filterMap.mpr ⟨_, member, rfl⟩))
  | call made =>
    cases proper.calls made (List.mem_filterMap.mpr ⟨_, member, rfl⟩) with
    | data name given =>
      rw [Statement.Writable, name]
      exact ⟨nameText_of_isName isName_dataMnemonic,
        fun argument member => (given argument member).writable⟩
    | mnemonic opcode name arity given =>
      rw [Statement.Writable, name]
      refine ⟨nameText_of_isName (isName_mnemonic opcode), fun argument member => ?_⟩
      obtain number | ⟨-, label, listed, value⟩ := given argument member
      · exact number.writable
      · rw [value]
        exact nameText_of_isName (proper.named label listed)

/-- A proper script can be written, and can be assembled by hand.  Any text that lays it out is
compiled to the bytes that one comes to by hand, and a final `halt`. -/
theorem compileSource_of_assembles (proper : Proper script) :
    IsLayout (linesOf script) script ∧
    (∃ lengths last, Assembles lengths script {} last) ∧
    ∀ source, IsLayout source script → ∀ lengths last, Assembles lengths script {} last →
      compileSource source = .ok last.halt.bytes := by
  refine ⟨isLayout_linesOf proper.writable, proper.exists_assembles, ?_⟩
  intro source layout lengths last assembles
  obtain ⟨found, parsed, -, accepted⟩ := (proper.accepted assembles).of_isLayout layout
  exact compileSource_eq_ok parsed (compile_eq_ok_iff.mpr accepted)

/-- The script `jump(end) loop: play(-60) wait16(70000) db(61, 300) ifjump(loop) end:`. -/
def bothWays : List Statement :=
  [.call ⟨"jump", [⟨.label "end", default⟩], default⟩,
    .label "loop" default,
    .call ⟨"play", [⟨.number (-60), default⟩], default⟩,
    .call ⟨"wait16", [⟨.number 70000, default⟩], default⟩,
    .call ⟨"db", [⟨.number 61, default⟩, ⟨.number 300, default⟩], default⟩,
    .call ⟨"ifjump", [⟨.label "loop", default⟩], default⟩,
    .label "end" default]

theorem proper_bothWays : Proper bothWays := by
  have number : ∀ n : Int, n.natAbs ≤ greatestMagnitude → (Value.number n).IsNumber :=
    fun n fits => ⟨n, rfl, fits⟩
  refine ⟨by decide, by decide, ?_⟩
  simp only [calls, bothWays, List.filterMap_cons, List.filterMap_nil, Statement.call?,
    List.forall_mem_cons, List.not_mem_nil, false_implies, implies_true, and_true]
  refine ⟨.mnemonic (.jump .always) rfl rfl ?_, .mnemonic .play rfl rfl ?_,
    .mnemonic .wait16 rfl rfl ?_, .data rfl ?_, .mnemonic (.jump .ifSet) rfl rfl ?_⟩
  · exact List.forall_mem_singleton.mpr (.inr ⟨rfl, "end", by decide, rfl⟩)
  · exact List.forall_mem_singleton.mpr (.inl (number _ (by decide)))
  · exact List.forall_mem_singleton.mpr (.inl (number _ (by decide)))
  · simp only [List.forall_mem_cons, List.not_mem_nil, false_implies, implies_true, and_true]
    exact ⟨number _ (by decide), number _ (by decide)⟩
  · exact List.forall_mem_singleton.mpr (.inr ⟨rfl, "loop", by decide, rfl⟩)

/-- By hand, the label ahead is taken to be at 13 and the one behind at 3. -/
theorem assembles_bothWays :
    Assembles (fun name => if name = "end" then 13 else 3) bothWays {}
      ((((({} : Assembler).jump (.integer 13)).play (.integer (-60))).wait16
        (.integer 70000)).data [.integer 61, .integer 300] |>.ifJump (.integer 3)) :=
  .call rfl (.label rfl (.call rfl (.call rfl (.call rfl (.call rfl (.label rfl .nil))))))

theorem compileSource_bothWays :
    Proper bothWays ∧ IsLayout (linesOf bothWays) bothWays ∧
    compileSource (linesOf bothWays) =
      .ok ((((({} : Assembler).jump (.integer 13)).play (.integer (-60))).wait16
        (.integer 70000)).data [.integer 61, .integer 300] |>.ifJump (.integer 3)).halt.bytes := by
  obtain ⟨layout, -, compiled⟩ := compileSource_of_assembles proper_bothWays
  exact ⟨proper_bothWays, layout, compiled _ layout _ _ assembles_bothWays⟩

end Scripts

end Script

end Sequencer
