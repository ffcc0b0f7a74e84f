import Mathlib.Data.List.Nodup
import Sequencer.Proofs.Encoding
import Sequencer.Script.Compiler

/-!
# The two passes of the compiler

The first pass places labels by the sizes of calls, the second writes bytes.  In an
accepted script they agree at every statement.

* `emitted` — the bytes of a part of a script, given the labels of the whole.
* `Accepted`, `compile_eq_ok_iff` — what it takes for a script to be compiled, and
  what it is compiled to.
* `offset_foldl_place`, `length_emitted` — the first pass has reached the number of bytes
  that the second has written, which is the `extent` of a part.
* `exists_split_of_lookup_labelsOf` — a label stands for the offset of one of its definitions.
-/

namespace Sequencer.Script

/-- The names a part of a script defines, in order. -/
def definedNames (part : List Statement) : List String :=
  part.filterMap fun
    | .label name _ => some name
    | .call _ => none

/-- The calls of a part of a script. -/
def calls (part : List Statement) : List Call :=
  part.filterMap Statement.call?

/-- The bytes that the calls of a part take. -/
def extent : List Statement → Nat
  | [] => 0
  | .label _ _ :: part => extent part
  | .call call :: part => call.size + extent part

/-- The directives of the calls that have one. -/
def written (labels : Labels) (part : List Statement) : List Directive :=
  (calls part).filterMap fun call => (call.directive labels).toOption

/-- The bytes that a part of a script emits. -/
def emitted (labels : Labels) (part : List Statement) : List UInt8 :=
  (written labels part).flatMap Directive.encode

/-- The labels of a whole script. -/
def labelsOf (script : List Statement) : Labels :=
  (Layout.ofScript script).labels

/-- What makes a script compile to a program. -/
structure Accepted (script : List Statement) (code : Bytecode) : Prop where
  unique : (definedNames script).Nodup
  made : ∀ call ∈ calls script, ∃ directive, call.directive (labelsOf script) = .ok directive
  bytes : code.toList = emitted (labelsOf script) script ++ [Opcode.halt.byte]

section Parts

variable (labels : Labels)

@[simp] theorem definedNames_append (first second : List Statement) :
    definedNames (first ++ second) = definedNames first ++ definedNames second :=
  List.filterMap_append

@[simp] theorem calls_append (first second : List Statement) :
    calls (first ++ second) = calls first ++ calls second :=
  List.filterMap_append

theorem calls_subset_of_append {script before after : List Statement}
    (split : script = before ++ after) : calls before ⊆ calls script := by
  rw [split, calls_append]
  exact List.subset_append_left _ _

@[simp] theorem extent_append (first second : List Statement) :
    extent (first ++ second) = extent first + extent second := by
  induction first with
  | nil => exact (Nat.zero_add _).symm
  | cons statement first ih => cases statement <;> simp [extent, ih, Nat.add_assoc]

@[simp] theorem written_append (first second : List Statement) :
    written labels (first ++ second) = written labels first ++ written labels second := by
  simp [written]

@[simp] theorem emitted_append (first second : List Statement) :
    emitted labels (first ++ second) = emitted labels first ++ emitted labels second := by
  simp [emitted]

@[simp] theorem emitted_label (name : String) (span : Span) (part : List Statement) :
    emitted labels (.label name span :: part) = emitted labels part :=
  rfl

theorem emitted_call {made : Call} {directive : Directive} (part : List Statement)
    (known : made.directive labels = .ok directive) :
    emitted labels (.call made :: part) = directive.encode ++ emitted labels part := by
  simp [emitted, written, calls, Statement.call?, known, Except.toOption]

end Parts

/-! ## Directives of calls -/

theorem mapM_eq_ok_iff {α β ε : Type} {f : α → Except ε β} {xs : List α} {ys : List β} :
    xs.mapM f = .ok ys ↔ List.Forall₂ (fun x y => f x = .ok y) xs ys := by
  induction xs generalizing ys with
  | nil => cases ys <;> simp [pure, Except.pure]
  | cons x xs ih =>
    rw [List.mapM_cons]
    cases head : f x with
    | error fault => cases ys <;> simp [head, bind, Except.bind]
    | ok y =>
      cases tail : xs.mapM f with
      | error fault => cases ys <;> simp [head, tail, ← ih, bind, Except.bind]
      | ok rest => cases ys <;> simp [head, tail, ← ih, bind, Except.bind, pure, Except.pure]

theorem exists_of_mem_of_forall₂ {α β : Type} {related : α → β → Prop} {xs : List α} {ys : List β}
    (pairs : List.Forall₂ related xs ys) {y : β} (member : y ∈ ys) : ∃ x ∈ xs, related x y := by
  induction pairs with
  | nil => cases member
  | @cons x y' xs ys head tail ih =>
    obtain rfl | member := List.mem_cons.mp member
    · exact ⟨x, List.mem_cons_self, head⟩
    · obtain ⟨x', member', related⟩ := ih member
      exact ⟨x', List.mem_cons_of_mem _ member', related⟩

theorem Argument.operand_eq_ok_iff {labels : Labels} {width : Width} {argument : Argument}
    {operand : Operand} :
    argument.operand labels width = .ok operand ↔
      (∃ value, argument.value = .number value ∧ operand = .integer value) ∨
      (∃ name offset, argument.value = .label name ∧ width = .word ∧
        labels.lookup name = some offset ∧ operand = .integer (offset : Nat)) := by
  unfold Argument.operand
  cases argument.value with
  | number value => simp [eq_comm]
  | label name =>
    by_cases word : width = .word
    · cases found : labels.lookup name <;> simp [word, found, eq_comm]
    · simp [word]

/-- What a call stands for. -/
inductive Makes (labels : Labels) (call : Call) : Directive → Prop where
  | data {operands : List Operand} (name : call.name = dataMnemonic)
      (given : List.Forall₂ (fun argument operand => argument.operand labels .byte = .ok operand)
        call.arguments operands) :
      Makes labels call (.data operands)
  | plain {opcode : Opcode} (name : call.name = opcode.mnemonic) (width : opcode.width = .none)
      (given : call.arguments = []) :
      Makes labels call (.emit opcode (.integer 0))
  | operand {opcode : Opcode} {argument : Argument} {operand : Operand}
      (name : call.name = opcode.mnemonic) (width : opcode.width ≠ .none)
      (given : call.arguments = [argument])
      (value : argument.operand labels opcode.width = .ok operand) :
      Makes labels call (.emit opcode operand)

theorem mnemonic_ne_dataMnemonic (opcode : Opcode) : opcode.mnemonic ≠ dataMnemonic :=
  Opcode.mnemonic_ne_of_ofMnemonic?_eq_none (by decide) opcode

section Calls

variable {labels : Labels} {call : Call} {opcode : Opcode}

/-- The name of a call is that of data, or the mnemonic of an opcode, or unknown. -/
theorem Call.name_cases (call : Call) :
    call.name = dataMnemonic ∨ (∃ opcode : Opcode, call.name = opcode.mnemonic) ∨
      call.name ≠ dataMnemonic ∧ ∀ opcode : Opcode, call.name ≠ opcode.mnemonic := by
  by_cases data : call.name = dataMnemonic
  · exact .inl data
  · by_cases known : ∃ opcode : Opcode, call.name = opcode.mnemonic
    · exact .inr (.inl known)
    · exact .inr (.inr ⟨data, not_exists.mp known⟩)

theorem Call.directive_data (name : call.name = dataMnemonic) :
    call.directive labels = Except.map .data (call.arguments.mapM (·.operand labels .byte)) := by
  rw [Call.directive, if_pos name]
  cases call.arguments.mapM (·.operand labels .byte) <;> rfl

theorem Call.directive_unknown (data : call.name ≠ dataMnemonic)
    (unknown : ∀ opcode : Opcode, call.name ≠ opcode.mnemonic) :
    call.directive labels = .error (.unknownMnemonic call.name call.span) := by
  have none : Opcode.ofMnemonic? call.name = none := by
    by_contra some
    obtain ⟨opcode, found⟩ := Option.ne_none_iff_exists'.mp some
    exact unknown opcode (Opcode.mnemonic_of_ofMnemonic?_eq_some found).symm
  rw [Call.directive, if_neg data, none]

theorem Call.directive_arity (name : call.name = opcode.mnemonic)
    (differs : call.arguments.length ≠ opcode.arity) :
    call.directive labels =
      .error (.arity call.name opcode.arity call.arguments.length call.span) := by
  rw [Call.directive, if_neg (name ▸ mnemonic_ne_dataMnemonic opcode), name,
    Opcode.ofMnemonic?_mnemonic]
  exact if_neg differs

theorem Call.directive_plain (name : call.name = opcode.mnemonic) (narrow : opcode.width = .none)
    (given : call.arguments = []) :
    call.directive labels = .ok (.emit opcode (.integer 0)) := by
  rw [Call.directive, if_neg (name ▸ mnemonic_ne_dataMnemonic opcode), name,
    Opcode.ofMnemonic?_mnemonic]
  simp [given, Opcode.arity, narrow, pure, Except.pure]

theorem Call.directive_operand {argument : Argument} (name : call.name = opcode.mnemonic)
    (wide : opcode.width ≠ .none) (given : call.arguments = [argument]) :
    call.directive labels = Except.map (.emit opcode) (argument.operand labels opcode.width) := by
  rw [Call.directive, if_neg (name ▸ mnemonic_ne_dataMnemonic opcode), name,
    Opcode.ofMnemonic?_mnemonic]
  cases value : argument.operand labels opcode.width <;>
    simp [given, Opcode.arity, wide, value, bind, Except.bind, pure, Except.pure, Except.map]

theorem Call.makes_of_directive {directive : Directive}
    (known : call.directive labels = .ok directive) : Makes labels call directive := by
  obtain data | ⟨opcode, name⟩ | ⟨data, unknown⟩ := call.name_cases
  · rw [Call.directive_data data] at known
    cases given : call.arguments.mapM (·.operand labels .byte) with
    | error fault =>
      rw [given] at known
      cases known
    | ok operands =>
      rw [given] at known
      cases known
      exact .data data (mapM_eq_ok_iff.mp given)
  · by_cases arity : call.arguments.length = opcode.arity
    · obtain ⟨narrow, given⟩ | ⟨wide, argument, given⟩ := Opcode.given_cases arity
      · rw [Call.directive_plain name narrow given] at known
        cases known
        exact .plain name narrow given
      · rw [Call.directive_operand name wide given] at known
        cases value : argument.operand labels opcode.width with
        | error fault =>
          rw [value] at known
          cases known
        | ok operand =>
          rw [value] at known
          cases known
          exact .operand name wide given value
    · rw [Call.directive_arity name arity] at known
      cases known
  · rw [Call.directive_unknown data unknown] at known
    cases known

theorem Makes.directive {directive : Directive} (makes : Makes labels call directive) :
    call.directive labels = .ok directive := by
  cases makes with
  | data name given =>
    rw [Call.directive_data name, mapM_eq_ok_iff.mpr given]
    rfl
  | plain name narrow given => exact Call.directive_plain name narrow given
  | operand name wide given value =>
    rw [Call.directive_operand name wide given, value]
    rfl

end Calls

theorem Call.directive_eq_ok_iff {labels : Labels} {call : Call} {directive : Directive} :
    call.directive labels = .ok directive ↔ Makes labels call directive :=
  ⟨Call.makes_of_directive, Makes.directive⟩

theorem Makes.size {labels : Labels} {call : Call} {directive : Directive}
    (makes : Makes labels call directive) : directive.size = call.size := by
  cases makes with
  | data name given => simp [Directive.size, Call.size, name, given.length_eq]
  | @plain opcode name width given =>
    simp [Directive.size, Call.size, name, mnemonic_ne_dataMnemonic]
  | @operand opcode argument operand name width given value =>
    simp [Directive.size, Call.size, name, mnemonic_ne_dataMnemonic]

/-! ## The passes side by side -/

/-- What the first pass reaches. -/
theorem offset_foldl_place (part : List Statement) (layout : Layout) :
    (part.foldl Layout.place layout).offset = layout.offset + extent part := by
  induction part generalizing layout with
  | nil => rfl
  | cons statement part ih =>
    rw [List.foldl_cons, ih]
    cases statement with
    | label name span => rfl
    | call call => exact Nat.add_assoc _ _ _

/-- What the second has written. -/
theorem length_emitted {labels : Labels} {part : List Statement}
    (made : ∀ call ∈ calls part, ∃ directive, call.directive labels = .ok directive) :
    (emitted labels part).length = extent part := by
  induction part with
  | nil => rfl
  | cons statement part ih =>
    cases statement with
    | label name span => exact ih made
    | call call =>
      -- the first pass goes by the size of the call, the second by what it stands for
      obtain ⟨⟨directive, known⟩, made⟩ := List.forall_mem_cons.mp made
      rw [emitted_call labels part known, List.length_append, Directive.length_encode, ih made,
        (Call.directive_eq_ok_iff.mp known).size, extent]

theorem foldl_place_replicate_call (made : Call) (count : Nat) (layout : Layout) :
    (List.replicate count (.call made)).foldl Layout.place layout =
      { layout with offset := layout.offset + count * made.size } := by
  induction count generalizing layout with
  | zero => simp
  | succ count ih =>
    rw [List.replicate_succ, List.foldl_cons, ih]
    simp only [Layout.place, Nat.succ_mul, Nat.add_assoc, Nat.add_comm made.size]

theorem repeated_foldl_place_eq_nil_iff (part : List Statement) (layout : Layout) :
    (part.foldl Layout.place layout).repeated = [] ↔
      layout.repeated = [] ∧ (definedNames part).Nodup ∧
        ∀ name ∈ definedNames part, name ∉ layout.labels.map Prod.fst := by
  induction part generalizing layout with
  | nil => simp [definedNames]
  | cons statement part ih =>
    cases statement with
    | label name span =>
      have names : definedNames (.label name span :: part) = name :: definedNames part := rfl
      rw [List.foldl_cons, ih, names]
      -- a name is noted as repeated just if it has been placed before
      by_cases known : (layout.labels.lookup name).isSome
      · have listed : name ∈ layout.labels.map Prod.fst := by
          obtain ⟨entry, member, same⟩ := List.lookup_isSome_iff.mp known
          exact List.mem_map.mpr ⟨entry, member, (beq_iff_eq.mp same).symm⟩
        simp only [Layout.place, known, if_true, reduceCtorEq, false_and, false_iff]
        rintro ⟨-, -, fresh⟩
        exact fresh name List.mem_cons_self listed
      · have fresh : name ∉ layout.labels.map Prod.fst := by
          intro listed
          obtain ⟨entry, member, rfl⟩ := List.mem_map.mp listed
          exact known (List.lookup_isSome_iff.mpr ⟨entry, member, beq_self_eq_true _⟩)
        simp only [Layout.place, known, List.map_cons, List.mem_cons, not_or, List.nodup_cons]
        constructor
        · rintro ⟨none, nodup, apart⟩
          refine ⟨none, ⟨fun again => (apart name again).1 rfl, nodup⟩, ?_⟩
          rintro other (rfl | member)
          · exact fresh
          · exact (apart other member).2
        · rintro ⟨none, ⟨once, nodup⟩, apart⟩
          refine ⟨none, nodup, fun other member => ⟨?_, apart other (.inr member)⟩⟩
          rintro rfl
          exact once member
    | call call => exact ih _

/-- A name that is found stands for where one of its definitions is. -/
theorem lookup_foldl_place {part : List Statement} {layout : Layout} {name : String} {offset : Nat}
    (found : (part.foldl Layout.place layout).labels.lookup name = some offset) :
    layout.labels.lookup name = some offset ∨
      ∃ before span after, part = before ++ .label name span :: after ∧
        offset = (before.foldl Layout.place layout).offset := by
  induction part generalizing layout with
  | nil => exact .inl found
  | cons statement part ih =>
    -- what is found was placed behind this statement, by it, or before
    obtain earlier | ⟨before, span, after, rfl, reached⟩ := ih found
    · cases statement with
      | label other span =>
        simp only [Layout.place, List.lookup_cons] at earlier
        split at earlier
        next same =>
          have same : name = other := beq_iff_eq.mp same
          subst same
          exact .inr ⟨[], span, part, rfl, (Option.some.inj earlier).symm⟩
        next => exact .inl earlier
      | call call => exact .inl earlier
    · exact .inr ⟨statement :: before, span, after, rfl, reached⟩

/-- The names that are placed are those that are defined. -/
theorem map_fst_foldl_place (part : List Statement) (layout : Layout) :
    (part.foldl Layout.place layout).labels.map Prod.fst =
      (definedNames part).reverse ++ layout.labels.map Prod.fst := by
  induction part generalizing layout with
  | nil => rfl
  | cons statement part ih =>
    cases statement with
    | label name span =>
      have names : definedNames (.label name span :: part) = name :: definedNames part := rfl
      rw [List.foldl_cons, ih, names]
      simp [Layout.place]
    | call call => exact ih _

theorem isSome_lookup_labelsOf_iff {script : List Statement} {name : String} :
    ((labelsOf script).lookup name).isSome ↔ name ∈ definedNames script := by
  have names := map_fst_foldl_place script {}
  rw [List.map_nil, List.append_nil] at names
  rw [← List.mem_reverse, ← names, List.lookup_isSome_iff, List.mem_map]
  constructor
  · rintro ⟨entry, member, same⟩
    exact ⟨entry, member, (beq_iff_eq.mp same).symm⟩
  · rintro ⟨entry, member, rfl⟩
    exact ⟨entry, member, beq_self_eq_true _⟩

/-- A label that is found is defined where the calls of that size end. -/
theorem exists_split_of_lookup_labelsOf {script : List Statement} {name : String} {offset : Nat}
    (found : (labelsOf script).lookup name = some offset) :
    ∃ before span after, script = before ++ .label name span :: after ∧ offset = extent before := by
  obtain impossible | ⟨before, span, after, split, reached⟩ := lookup_foldl_place found
  · cases impossible
  · rw [offset_foldl_place] at reached
    exact ⟨before, span, after, split, reached.trans (Nat.zero_add _)⟩

/-! ## What is compiled, and to what -/

theorem faults_eq_nil_iff {script : List Statement} :
    faults script = [] ↔ (definedNames script).Nodup ∧
      ∀ call ∈ calls script, ∃ directive, call.directive (labelsOf script) = .ok directive := by
  have once := repeated_foldl_place_eq_nil_iff script {}
  simp only [List.map_nil, List.not_mem_nil, not_false_eq_true, implies_true, and_true,
    true_and] at once
  unfold faults
  rw [List.append_eq_nil_iff, List.map_eq_nil_iff, List.reverse_eq_nil_iff, Layout.ofScript, once]
  refine and_congr_right fun _ => ?_
  simp only [directives, List.filterMap_eq_nil_iff, List.mem_map]
  constructor
  · intro faultless call member
    have none := faultless _ ⟨call, member, rfl⟩
    cases made : call.directive (labelsOf script) with
    | error fault =>
      rw [labelsOf] at made
      simp [made, faultOf?] at none
    | ok directive => exact ⟨directive, rfl⟩
  · rintro made result ⟨call, member, rfl⟩
    obtain ⟨directive, known⟩ := made call member
    rw [labelsOf] at known
    rw [known]
    rfl

theorem compile_eq_ok_iff {script : List Statement} {code : Bytecode} :
    compile script = .ok code ↔ Accepted script code := by
  have same : (directives script).filterMap Except.toOption = written (labelsOf script) script := by
    simp [directives, written, calls, labelsOf, List.filterMap_map]
  have bytes : ((Assembler.writeAll {} (written (labelsOf script) script)).emit .halt
      (.integer 0)).bytes.toList =
      emitted (labelsOf script) script ++ [Opcode.halt.byte] := by
    simp [Assembler.emit, Assembler.toList_bytes_writeAll, emitted, Directive.encode,
      Opcode.encode, Opcode.width]
  unfold compile
  split
  next clean =>
    obtain ⟨unique, made⟩ := faults_eq_nil_iff.mp clean
    rw [same]
    constructor
    · intro compiled
      cases compiled
      exact ⟨unique, made, bytes⟩
    · intro accepted
      rw [Except.ok.injEq, ← Array.toList_inj, bytes, accepted.bytes]
  next found flawed =>
    constructor
    · intro compiled
      cases compiled
    · intro accepted
      exact absurd (faults_eq_nil_iff.mpr ⟨accepted.unique, accepted.made⟩) flawed

end Sequencer.Script
