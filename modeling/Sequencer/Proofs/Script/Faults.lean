import Mathlib.Data.List.Induction
import Sequencer.Proofs.Script.Emission

/-!
# What is wrong with a script

A script is compiled if it is well-formed.  If not, its faults are listed, each of them once:
first the definitions that repeat a name, then one fault for each call that has any.

* `WellFormed` — the scripts without a fault.
* `repetitions` — the definitions of names that are defined before.
* `Call.Blamed` — the one fault of a call: its name comes before its number of arguments, and
  that before the arguments, of which the first bad one is blamed.
* `Listed` — the faults of calls, in order.
* `compile_eq_error_iff` — a script that is not well-formed has these faults, and no other.
-/

namespace Sequencer.Script

/-! ## Well-formed scripts -/

/-- Whether a value can be an operand of a width, where the names are those of labels. -/
def Value.Fits (names : List String) (width : Width) : Value → Prop
  | .number _ => True
  | .label name => width = .word ∧ name ∈ names

/-- The width of what is given to a call that has a known name and as many arguments as it needs. -/
inductive Call.Takes (call : Call) : Width → Prop where
  | data (name : call.name = dataMnemonic) : Takes call .byte
  | mnemonic {opcode : Opcode} (name : call.name = opcode.mnemonic)
      (arity : call.arguments.length = opcode.arity) : Takes call opcode.width

def Call.WellFormed (names : List String) (call : Call) : Prop :=
  ∃ width, call.Takes width ∧ ∀ argument ∈ call.arguments, argument.value.Fits names width

structure WellFormed (script : List Statement) : Prop where
  unique : (definedNames script).Nodup
  calls : ∀ call ∈ calls script, call.WellFormed (definedNames script)

/-! ## Faults -/

/-- What is wrong with an argument that is given for an operand of a width. -/
inductive Argument.Blamed (names : List String) (width : Width) (argument : Argument) :
    Fault → Prop where
  | notAllowed {name : String} (value : argument.value = .label name) (narrow : width ≠ .word) :
      Blamed names width argument (.labelNotAllowed name argument.span)
  | undefined {name : String} (value : argument.value = .label name) (word : width = .word)
      (undefined : name ∉ names) :
      Blamed names width argument (.undefinedLabel name argument.span)

/-- What is wrong with a call. -/
inductive Call.Blamed (names : List String) (call : Call) : Fault → Prop where
  | unknown (data : call.name ≠ dataMnemonic)
      (unknown : ∀ opcode : Opcode, call.name ≠ opcode.mnemonic) :
      Blamed names call (.unknownMnemonic call.name call.span)
  | arity {opcode : Opcode} (name : call.name = opcode.mnemonic)
      (differs : call.arguments.length ≠ opcode.arity) :
      Blamed names call (.arity call.name opcode.arity call.arguments.length call.span)
  | argument {width : Width} {before after : List Argument} {argument : Argument} {fault : Fault}
      (takes : call.Takes width) (given : call.arguments = before ++ argument :: after)
      (fit : ∀ earlier ∈ before, earlier.value.Fits names width)
      (bad : argument.Blamed names width fault) :
      Blamed names call fault

/-- The faults of calls: one for each that is not well-formed, in order. -/
inductive Listed (names : List String) : List Call → List Fault → Prop where
  | nil : Listed names [] []
  | wellFormed {call : Call} {rest : List Call} {found : List Fault}
      (good : call.WellFormed names) (later : Listed names rest found) :
      Listed names (call :: rest) found
  | blamed {call : Call} {rest : List Call} {fault : Fault} {found : List Fault}
      (bad : call.Blamed names fault) (later : Listed names rest found) :
      Listed names (call :: rest) (fault :: found)

/-- The fault of a statement that defines a name again. -/
def Statement.repetition? (before : List Statement) : Statement → Option Fault
  | .label name span =>
    if name ∈ definedNames before then some (.duplicateLabel name span) else none
  | .call _ => none

/-- The faults of all definitions of names that are defined before, in order. -/
def repetitions (script : List Statement) : List Fault :=
  script.zipIdx.filterMap fun (statement, index) => statement.repetition? (script.take index)

/-! ## Definitions -/

theorem repetitions_concat (script : List Statement) (statement : Statement) :
    repetitions (script ++ [statement]) =
      repetitions script ++ (statement.repetition? script).toList := by
  have earlier : script.zipIdx.filterMap (fun (other, index) =>
      other.repetition? ((script ++ [statement]).take index)) = repetitions script := by
    refine List.filterMap_congr fun (other, index) member => ?_
    have le : index ≤ script.length := Nat.le_of_lt (by simpa using List.snd_lt_of_mem_zipIdx member)
    simp only [List.take_append_of_le_length le]
  rw [repetitions, List.zipIdx_append, List.filterMap_append, earlier]
  cases found : statement.repetition? script <;> simp [found]

/-- The first pass notes just those definitions. -/
theorem map_repeated_ofScript (script : List Statement) :
    (Layout.ofScript script).repeated.reverse.map
      (fun (name, span) => Fault.duplicateLabel name span) = repetitions script := by
  induction script using List.reverseRecOn with
  | nil => rfl
  | append_singleton script statement ih =>
    rw [repetitions_concat, Layout.ofScript_append_singleton, ← ih]
    cases statement with
    | label name span =>
      have noted : ((Layout.ofScript script).labels.lookup name).isSome ↔
          name ∈ definedNames script := isSome_lookup_labelsOf_iff
      by_cases known : name ∈ definedNames script <;>
        simp [Layout.place, Statement.repetition?, noted, known]
    | call made => simp [Layout.place, Statement.repetition?]

/-! ## Calls -/

theorem Call.Takes.unique {call : Call} {first second : Width} (takes : call.Takes first)
    (other : call.Takes second) : first = second := by
  cases takes with
  | data name =>
    cases other with
    | data _ => rfl
    | mnemonic name' _ => exact absurd (name'.symm.trans name) (mnemonic_ne_dataMnemonic _)
  | mnemonic name _ =>
    cases other with
    | data name' => exact absurd (name.symm.trans name') (mnemonic_ne_dataMnemonic _)
    | mnemonic name' _ => rw [Opcode.mnemonic_injective (name.symm.trans name')]

theorem Argument.Blamed.not_fits {names : List String} {width : Width} {argument : Argument}
    {fault : Fault} (bad : argument.Blamed names width fault) :
    ¬argument.value.Fits names width := by
  cases bad with
  | notAllowed value narrow =>
    rw [value]
    exact fun fits => narrow fits.1
  | undefined value _ undefined =>
    rw [value]
    exact fun fits => undefined fits.2

theorem Call.Blamed.not_wellFormed {names : List String} {call : Call} {fault : Fault}
    (bad : call.Blamed names fault) : ¬call.WellFormed names := by
  rintro ⟨width, takes, fits⟩
  cases bad with
  | unknown data unknown =>
    cases takes with
    | data name => exact data name
    | mnemonic name _ => exact unknown _ name
  | @arity opcode name differs =>
    cases takes with
    | data name' => exact mnemonic_ne_dataMnemonic _ (name.symm.trans name')
    | mnemonic name' arity =>
      obtain rfl := Opcode.mnemonic_injective (name.symm.trans name')
      exact differs arity
  | @argument width' before after argument fault takes' given _ bad =>
    obtain rfl := takes.unique takes'
    exact bad.not_fits (fits argument (by simp [given]))

theorem mapM_eq_error_iff {α β ε : Type} {f : α → Except ε β} {xs : List α} {fault : ε} :
    xs.mapM f = .error fault ↔ ∃ before x after, xs = before ++ x :: after ∧
      (∀ y ∈ before, ∃ value, f y = .ok value) ∧ f x = .error fault := by
  induction xs with
  | nil => simp [pure, Except.pure]
  | cons x xs ih =>
    rw [List.mapM_cons]
    cases head : f x with
    | error first =>
      constructor
      · intro failed
        cases failed
        exact ⟨[], x, xs, rfl, by simp, head⟩
      · rintro ⟨_ | ⟨y, before⟩, z, after, split, fine, failed⟩
        · obtain ⟨rfl, rfl⟩ := List.cons.inj split
          rw [head] at failed
          cases failed
          rfl
        · obtain ⟨rfl, -⟩ := List.cons.inj split
          obtain ⟨value, known⟩ := fine x List.mem_cons_self
          rw [head] at known
          cases known
    | ok value =>
      -- what fails lies in the tail
      have tail : (xs.mapM f >>= fun values => pure (value :: values)) = .error fault ↔
          xs.mapM f = .error fault := by
        cases xs.mapM f <;> simp [bind, Except.bind, pure, Except.pure]
      refine tail.trans (ih.trans ⟨?_, ?_⟩)
      · rintro ⟨before, y, after, rfl, fine, failed⟩
        exact ⟨x :: before, y, after, rfl, List.forall_mem_cons.mpr ⟨⟨value, head⟩, fine⟩, failed⟩
      · rintro ⟨_ | ⟨y, before⟩, z, after, split, fine, failed⟩
        · obtain ⟨rfl, rfl⟩ := List.cons.inj split
          rw [head] at failed
          cases failed
        · obtain ⟨rfl, rfl⟩ := List.cons.inj split
          exact ⟨before, z, after, rfl, (List.forall_mem_cons.mp fine).2, failed⟩

section Labels

variable {labels : Labels} {names : List String}
  (placed : ∀ name, (labels.lookup name).isSome ↔ name ∈ names)
include placed

theorem Argument.fits_iff {argument : Argument} {width : Width} :
    argument.value.Fits names width ↔ ∃ operand, argument.operand labels width = .ok operand := by
  unfold Argument.operand
  cases argument.value with
  | number value => simp [Value.Fits]
  | label name =>
    by_cases word : width = .word
    · rw [Value.Fits, ← placed]
      cases found : labels.lookup name <;> simp [word, found]
    · simp [Value.Fits, word]

theorem Argument.operand_eq_error_iff {argument : Argument} {width : Width} {fault : Fault} :
    argument.operand labels width = .error fault ↔ argument.Blamed names width fault := by
  constructor
  · intro failed
    unfold Argument.operand at failed
    split at failed
    next => cases failed
    next name value =>
      split at failed
      next word =>
        split at failed
        next => cases failed
        next missing =>
          cases failed
          exact .undefined value word fun defined => by simpa [missing] using (placed name).mpr defined
      next narrow =>
        cases failed
        exact .notAllowed value narrow
  · intro bad
    unfold Argument.operand
    cases bad with
    | notAllowed value narrow => simp only [value, narrow, if_false]
    | @undefined name value word undefined =>
      have missing : labels.lookup name = none := by
        rw [← Option.not_isSome_iff_eq_none, placed]
        exact undefined
      simp only [value, word, missing, if_true]

theorem Call.blamed_of_directive {call : Call} {fault : Fault}
    (failed : call.directive labels = .error fault) : call.Blamed names fault := by
  obtain data | ⟨opcode, name⟩ | ⟨data, unknown⟩ := call.name_cases
  · rw [Call.directive_data data] at failed
    cases given : call.arguments.mapM (·.operand labels .byte) with
    | ok operands =>
      rw [given] at failed
      cases failed
    | error first =>
      rw [given] at failed
      cases failed
      obtain ⟨before, argument, after, split, fine, bad⟩ := mapM_eq_error_iff.mp given
      exact .argument (.data data) split
        (fun earlier member => (Argument.fits_iff placed).mpr (fine earlier member))
        ((Argument.operand_eq_error_iff placed).mp bad)
  · by_cases arity : call.arguments.length = opcode.arity
    · obtain ⟨narrow, given⟩ | ⟨wide, argument, given⟩ := Opcode.given_cases arity
      · rw [Call.directive_plain name narrow given] at failed
        cases failed
      · rw [Call.directive_operand name wide given] at failed
        cases value : argument.operand labels opcode.width with
        | ok operand =>
          rw [value] at failed
          cases failed
        | error first =>
          rw [value] at failed
          cases failed
          have given : call.arguments = [] ++ argument :: [] := given
          exact .argument (.mnemonic name arity) given (List.forall_mem_nil _)
            ((Argument.operand_eq_error_iff placed).mp value)
    · rw [Call.directive_arity name arity] at failed
      cases failed
      exact .arity name arity
  · rw [Call.directive_unknown data unknown] at failed
    cases failed
    exact .unknown data unknown

theorem Call.Blamed.directive {call : Call} {fault : Fault} (bad : call.Blamed names fault) :
    call.directive labels = .error fault := by
  cases bad with
  | unknown data unknown => exact Call.directive_unknown data unknown
  | arity name differs => exact Call.directive_arity name differs
  | @argument width before after argument fault takes given fit bad =>
    have failed := (Argument.operand_eq_error_iff placed).mpr bad
    cases takes with
    | data name =>
      have fine := fun earlier member => (Argument.fits_iff placed).mp (fit earlier member)
      rw [Call.directive_data name,
        mapM_eq_error_iff.mpr ⟨before, argument, after, given, fine, failed⟩]
      rfl
    | @mnemonic opcode name arity =>
      -- the bad argument is the only one
      obtain ⟨-, none⟩ | ⟨wide, only, single⟩ := Opcode.given_cases arity
      · rw [none] at given
        cases before <;> cases given
      · obtain rfl : only = argument := by
          rw [single] at given
          cases before with
          | nil => exact (List.cons.inj given).1
          | cons first before => simp at given
        rw [Call.directive_operand name wide single, failed]
        rfl

theorem Call.directive_eq_error_iff {call : Call} {fault : Fault} :
    call.directive labels = .error fault ↔ call.Blamed names fault :=
  ⟨Call.blamed_of_directive placed, Call.Blamed.directive placed⟩

theorem Call.wellFormed_iff {call : Call} :
    call.WellFormed names ↔ ∃ directive, call.directive labels = .ok directive := by
  constructor
  · intro good
    cases made : call.directive labels with
    | ok directive => exact ⟨directive, rfl⟩
    | error fault => exact absurd good ((Call.directive_eq_error_iff placed).mp made).not_wellFormed
  · rintro ⟨directive, known⟩
    cases Call.directive_eq_ok_iff.mp known with
    | data name given =>
      refine ⟨.byte, .data name, fun argument member => (Argument.fits_iff placed).mpr ?_⟩
      obtain ⟨operand, -, value⟩ := exists_of_mem_of_forall₂ given.flip member
      exact ⟨operand, value⟩
    | @plain opcode name width none =>
      refine ⟨opcode.width, .mnemonic name ?_, by simp [none]⟩
      rw [none, Opcode.arity_eq_zero_iff.mpr width, List.length_nil]
    | @operand opcode argument operand name width single value =>
      refine ⟨opcode.width, .mnemonic name ?_, ?_⟩
      · simp [single, Opcode.arity, width]
      · rw [single, List.forall_mem_singleton]
        exact (Argument.fits_iff placed).mpr ⟨operand, value⟩

/-- What the second pass finds is what is to be listed, and nothing else can be. -/
theorem listed_iff {listed : List Call} {found : List Fault} :
    Listed names listed found ↔
      found = (listed.map (·.directive labels)).filterMap faultOf? := by
  constructor
  · intro lists
    induction lists with
    | nil => rfl
    | wellFormed good _ ih =>
      obtain ⟨directive, known⟩ := (Call.wellFormed_iff placed).mp good
      rw [List.map_cons, List.filterMap_cons, known]
      exact ih
    | blamed bad _ ih =>
      rw [List.map_cons, List.filterMap_cons, (Call.directive_eq_error_iff placed).mpr bad, ih]
      rfl
  · rintro rfl
    induction listed with
    | nil => exact .nil
    | cons call listed ih =>
      rw [List.map_cons, List.filterMap_cons]
      cases made : call.directive labels with
      | ok directive => exact .wellFormed ((Call.wellFormed_iff placed).mpr ⟨directive, made⟩) ih
      | error fault => exact .blamed ((Call.directive_eq_error_iff placed).mp made) ih

end Labels

/-! ## Scripts -/

section Scripts

variable {script : List Statement}

theorem faults_eq_nil_iff_wellFormed : faults script = [] ↔ WellFormed script := by
  have placed : ∀ name, ((labelsOf script).lookup name).isSome ↔ name ∈ definedNames script :=
    fun name => isSome_lookup_labelsOf_iff
  rw [faults_eq_nil_iff]
  constructor
  · rintro ⟨unique, made⟩
    exact ⟨unique, fun call member => (Call.wellFormed_iff placed).mpr (made call member)⟩
  · rintro ⟨unique, good⟩
    exact ⟨unique, fun call member => (Call.wellFormed_iff placed).mp (good call member)⟩

theorem faults_eq_append_iff {found : List Fault} :
    found = faults script ↔ ∃ flaws, Listed (definedNames script) (calls script) flaws ∧
      found = repetitions script ++ flaws := by
  have placed : ∀ name, ((labelsOf script).lookup name).isSome ↔ name ∈ definedNames script :=
    fun name => isSome_lookup_labelsOf_iff
  simp only [listed_iff placed, exists_eq_left, ← map_repeated_ofScript]
  rfl

theorem compile_eq_error_iff_faults {found : List Fault} :
    compile script = .error found ↔ faults script ≠ [] ∧ found = faults script := by
  unfold compile
  cases faults script with
  | nil => simp
  | cons fault rest => simp [eq_comm]

/-- A script is compiled just if it is well-formed.  Otherwise its faults are the definitions that
repeat a name and then those of the calls, one for each call that is not well-formed, both in
the order of the script. -/
theorem compile_eq_error_iff (script : List Statement) :
    ((∃ code, compile script = .ok code) ↔ WellFormed script) ∧
    ∀ found, compile script = .error found ↔ ¬WellFormed script ∧
      ∃ flaws, Listed (definedNames script) (calls script) flaws ∧
        found = repetitions script ++ flaws := by
  have failing : ∀ found, compile script = .error found ↔
      ¬WellFormed script ∧ found = faults script := fun found => by
    rw [compile_eq_error_iff_faults, ← faults_eq_nil_iff_wellFormed]
  refine ⟨?_, fun found => by rw [failing, faults_eq_append_iff]⟩
  cases compiled : compile script with
  | ok code =>
    have good : WellFormed script := by
      by_contra flawed
      have failed := (failing (faults script)).mpr ⟨flawed, rfl⟩
      rw [compiled] at failed
      cases failed
    exact ⟨fun _ => good, fun _ => ⟨code, rfl⟩⟩
  | error found =>
    have flawed := ((failing found).mp compiled).1
    refine ⟨?_, fun good => absurd good flawed⟩
    rintro ⟨code, impossible⟩
    cases impossible

example : compile
    [.label "a" ⟨0, 2⟩, .label "a" ⟨3, 5⟩,
      .call ⟨"bogus", [⟨.number 1, ⟨12, 13⟩⟩], ⟨6, 14⟩⟩,
      .call ⟨"play", [], ⟨15, 21⟩⟩,
      .call ⟨"jump", [⟨.label "nowhere", ⟨27, 34⟩⟩], ⟨22, 35⟩⟩,
      .call ⟨"set", [⟨.label "a", ⟨40, 41⟩⟩], ⟨36, 42⟩⟩] =
    .error [.duplicateLabel "a" ⟨3, 5⟩, .unknownMnemonic "bogus" ⟨6, 14⟩,
      .arity "play" 1 0 ⟨15, 21⟩, .undefinedLabel "nowhere" ⟨27, 34⟩,
      .labelNotAllowed "a" ⟨40, 41⟩] := by decide

end Scripts

end Sequencer.Script
