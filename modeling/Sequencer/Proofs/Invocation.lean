import Sequencer.Assembler.Methods
import Sequencer.Proofs.Encoding

/-!
# Calls of the assembler's methods

Whoever assembles by hand calls one method after the other.  What such a call writes can be
told from the opcode that its method is named for.

* `Invocation` — a call of a method: its name, and what it is given.
* `Assembler.invokeAll?` — calls made one after the other.
* `Invocation.Proper`, `Assembler.isSome_invokeAll?_iff` — the calls that can be made.
* `Invocation.directive`, `Assembler.invokeAll?_eq_writeAll` — what they write.
-/

namespace Sequencer

structure Invocation where
  name : String
  operands : List Operand

/-- Whether a call is one for raw bytes, or that of a mnemonic with as many operands as its opcode
takes. -/
inductive Invocation.Proper (call : Invocation) : Prop where
  | data (name : call.name = Assembler.dataMethod)
  | mnemonic (opcode : Opcode) (name : call.name = opcode.mnemonic)
      (arity : call.operands.length = opcode.arity)

/-- What a call is expected to write: the opcode of its name, with the operand if there is one, or
raw bytes if its name is that of no opcode. -/
def Invocation.directive (call : Invocation) : Directive :=
  match Opcode.ofMnemonic? call.name with
  | some opcode => .emit opcode (call.operands.headD (.integer 0))
  | none => .data call.operands

theorem Assembler.ofMnemonic?_dataMethod : Opcode.ofMnemonic? dataMethod = none := by
  decide

namespace Invocation

variable {call : Invocation}

theorem directive_data (name : call.name = Assembler.dataMethod) :
    call.directive = .data call.operands := by
  rw [directive, name, Assembler.ofMnemonic?_dataMethod]

theorem directive_mnemonic {opcode : Opcode} (name : call.name = opcode.mnemonic) :
    call.directive = .emit opcode (call.operands.headD (.integer 0)) := by
  rw [directive, name, Opcode.ofMnemonic?_mnemonic]

end Invocation

namespace Assembler

/-- Makes calls one after the other.  There is no result if one of them cannot be made. -/
def invokeAll? (assembler : Assembler) (calls : List Invocation) : Option Assembler :=
  calls.foldlM (fun assembler call => assembler.invoke? call.name call.operands) assembler

/-! ## One call -/

theorem Method.width_of_plain_eq {opcode : Opcode} {write : Assembler → Assembler}
    (method : .plain write = Method.ofOpcode opcode) : opcode.width = .none := by
  unfold ofOpcode at method
  split at method
  next narrow => exact narrow
  next => cases method

theorem Method.width_of_operand_eq {opcode : Opcode} {write : Assembler → Operand → Assembler}
    (method : .operand write = Method.ofOpcode opcode) : opcode.width ≠ .none := by
  unfold ofOpcode at method
  split at method
  next => cases method
  next wide => exact wide

theorem invoke?_data (assembler : Assembler) (operands : List Operand) :
    assembler.invoke? dataMethod operands = some (assembler.data operands) :=
  rfl

theorem mnemonic_ne_dataMethod (opcode : Opcode) : opcode.mnemonic ≠ dataMethod :=
  Opcode.mnemonic_ne_of_ofMnemonic?_eq_none ofMnemonic?_dataMethod opcode

theorem invoke?_mnemonic (assembler : Assembler) {opcode : Opcode} {operands : List Operand}
    (arity : operands.length = opcode.arity) :
    assembler.invoke? opcode.mnemonic operands =
      some (assembler.emit opcode (operands.headD (.integer 0))) := by
  unfold invoke?
  rw [if_neg (mnemonic_ne_dataMethod opcode), lookup_methods_mnemonic, Method.ofOpcode]
  obtain ⟨narrow, rfl⟩ | ⟨wide, operand, rfl⟩ := Opcode.given_cases arity
  · rw [if_pos narrow]
    rfl
  · rw [if_neg wide]
    rfl

theorem invoke?_of_proper (assembler : Assembler) {call : Invocation} (proper : call.Proper) :
    assembler.invoke? call.name call.operands = some (assembler.write call.directive) := by
  cases proper with
  | data name =>
    rw [call.directive_data name, name]
    exact assembler.invoke?_data _
  | mnemonic opcode name arity =>
    rw [call.directive_mnemonic name, name]
    exact assembler.invoke?_mnemonic arity

/-- Every method is that of an opcode. -/
theorem exists_opcode_of_lookup_methods {name : String} {method : Method}
    (found : methods.lookup name = some method) :
    ∃ opcode : Opcode, name = opcode.mnemonic ∧ method = .ofOpcode opcode := by
  -- the names are checked one by one, and the opcode of a name has one method only
  have named : ∀ known ∈ methods.map Prod.fst, (Opcode.ofMnemonic? known).isSome := by decide
  obtain ⟨before, after, split, -⟩ := List.lookup_eq_some_iff.mp found
  have listed : name ∈ methods.map Prod.fst := by simp [split]
  obtain ⟨opcode, known⟩ := Option.isSome_iff_exists.mp (named name listed)
  obtain rfl := Opcode.mnemonic_of_ofMnemonic?_eq_some known
  exact ⟨opcode, rfl, Option.some.inj (found.symm.trans (lookup_methods_mnemonic opcode))⟩

/-- Just the proper calls can be made. -/
theorem isSome_invoke?_iff {assembler : Assembler} {call : Invocation} :
    (assembler.invoke? call.name call.operands).isSome ↔ call.Proper := by
  constructor
  · intro made
    by_cases raw : call.name = dataMethod
    · exact .data raw
    unfold invoke? at made
    rw [if_neg raw] at made
    split at made
    next write found given =>
      obtain ⟨opcode, name, method⟩ := exists_opcode_of_lookup_methods found
      refine .mnemonic opcode name ?_
      rw [given, Opcode.arity_eq_zero_iff.mpr (Method.width_of_plain_eq method)]
      rfl
    next write operand found given =>
      obtain ⟨opcode, name, method⟩ := exists_opcode_of_lookup_methods found
      refine .mnemonic opcode name ?_
      rw [given, Opcode.arity, if_neg (Method.width_of_operand_eq method)]
      rfl
    next => cases made
  · intro proper
    rw [assembler.invoke?_of_proper proper]
    rfl

/-! ## Calls in a row -/

theorem invokeAll?_eq_writeAll (assembler : Assembler) {calls : List Invocation}
    (proper : ∀ call ∈ calls, call.Proper) :
    assembler.invokeAll? calls =
      some (assembler.writeAll (calls.map Invocation.directive)) := by
  induction calls generalizing assembler with
  | nil => rfl
  | cons call calls ih =>
    obtain ⟨first, later⟩ := List.forall_mem_cons.mp proper
    rw [invokeAll?, List.foldlM_cons, assembler.invoke?_of_proper first]
    exact ih (assembler.write call.directive) later

theorem isSome_invokeAll?_iff {assembler : Assembler} {calls : List Invocation} :
    (assembler.invokeAll? calls).isSome ↔ ∀ call ∈ calls, call.Proper := by
  constructor
  · intro made
    induction calls generalizing assembler with
    | nil => exact List.forall_mem_nil _
    | cons call calls ih =>
      rw [invokeAll?, List.foldlM_cons] at made
      obtain ⟨last, reached⟩ := Option.isSome_iff_exists.mp made
      obtain ⟨next, called, rest⟩ := Option.bind_eq_some_iff.mp reached
      exact List.forall_mem_cons.mpr ⟨isSome_invoke?_iff.mp (Option.isSome_of_eq_some called),
        @ih next (Option.isSome_of_eq_some rest)⟩
  · intro proper
    rw [assembler.invokeAll?_eq_writeAll proper]
    rfl

end Assembler

end Sequencer
