import Mathlib.Algebra.GroupWithZero.Nat
import Sequencer.Proofs.Script.LabelTargets

/-!
# The passes in step

Sizes are computed twice: the first pass goes by the names of calls and the numbers of
their arguments, the second by the bytes it writes.  Wherever an accepted script is cut in
two, both have come equally far.

* `assembled` — what the second pass has written at a cut.
* `Accepted.offset_eq_size_assembled` — the first pass has reached its length.
* `Accepted.nextStartsAt` — at that offset the rest goes on with its next call.
* `passes_agree` — with that, where labels stand, what a script is compiled to, and how
  long it is.
-/

namespace Sequencer.Script

/-- What the second pass has written when it comes to the end of a part of a script. -/
def assembled (labels : Labels) (part : List Statement) : Assembler :=
  Assembler.writeAll {} (written labels part)

/-- Whether the first of the calls that are left is encoded from that offset on.  If none is left,
only the final `halt` is. -/
def NextStartsAt (labels : Labels) (code : Bytecode) (offset : Nat) : List Call → Prop
  | [] => code.toList.drop offset = [Opcode.halt.byte]
  | call :: _ => ∃ directive, Makes labels call directive ∧
      directive.encode <+: code.toList.drop offset

/-! ## The second pass at a cut -/

section Parts

variable {labels : Labels} {part : List Statement}

@[simp] theorem toList_bytes_assembled (labels : Labels) (part : List Statement) :
    (assembled labels part).bytes.toList = emitted labels part := by
  simp [assembled, Assembler.toList_bytes_writeAll, emitted]

theorem size_assembled
    (made : ∀ call ∈ calls part, ∃ directive, call.directive labels = .ok directive) :
    (assembled labels part).size = extent part := by
  rw [Assembler.size, ← Array.length_toList, toList_bytes_assembled, length_emitted made]

/-- From a cut on, the second pass writes the rest behind what it has written. -/
theorem writeAll_assembled (labels : Labels) (before after : List Statement) :
    (assembled labels before).writeAll (written labels after) =
      assembled labels (before ++ after) := by
  rw [assembled, assembled, written_append, Assembler.writeAll, Assembler.writeAll,
    Assembler.writeAll, List.foldl_append]

/-- Each call has its own directive, in order. -/
theorem forall₂_makes_written
    (made : ∀ call ∈ calls part, ∃ directive, call.directive labels = .ok directive) :
    List.Forall₂ (Makes labels) (calls part) (written labels part) := by
  unfold written
  generalize calls part = listed at made ⊢
  induction listed with
  | nil => exact .nil
  | cons call rest ih =>
    obtain ⟨⟨directive, known⟩, made⟩ := List.forall_mem_cons.mp made
    rw [List.filterMap_cons, known]
    exact .cons (Call.directive_eq_ok_iff.mp known) (ih made)

theorem extent_eq_sum (part : List Statement) :
    extent part = ((calls part).map Call.size).sum := by
  induction part with
  | nil => rfl
  | cons statement part ih =>
    cases statement with
    | label name span => exact ih
    | call made =>
      rw [extent, ih]
      rfl

end Parts

/-! ## Both passes -/

variable {script before after : List Statement} {code : Bytecode}

theorem Accepted.made_of_split (accepted : Accepted script code)
    (split : script = before ++ after) :
    ∀ call ∈ calls before, ∃ directive, call.directive (labelsOf script) = .ok directive :=
  fun call member => accepted.made call (calls_subset_of_append split member)

theorem Accepted.offset_eq_size_assembled (accepted : Accepted script code)
    (split : script = before ++ after) :
    (Layout.ofScript before).offset = (assembled (labelsOf script) before).size := by
  rw [size_assembled (accepted.made_of_split split), Layout.ofScript, offset_foldl_place]
  exact Nat.zero_add _

/-- The program is what the second pass writes from the cut on, with a final `halt`. -/
theorem Accepted.emit_halt_eq (accepted : Accepted script code)
    (split : script = before ++ after) :
    (((assembled (labelsOf script) before).writeAll (written (labelsOf script) after)).emit .halt
      (.integer 0)).bytes = code := by
  rw [writeAll_assembled, ← split, ← Array.toList_inj, Assembler.emit,
    Assembler.toList_bytes_write, toList_bytes_assembled, accepted.bytes]
  rfl

/-- What lies in the program behind a cut. -/
theorem Accepted.drop_toList (accepted : Accepted script code) (split : script = before ++ after) :
    code.toList.drop (assembled (labelsOf script) before).size =
      emitted (labelsOf script) after ++ [Opcode.halt.byte] := by
  have cut : code.toList = emitted (labelsOf script) before ++
      (emitted (labelsOf script) after ++ [Opcode.halt.byte]) := by
    rw [accepted.bytes, ← List.append_assoc, ← emitted_append, ← split]
  rw [cut, Assembler.size, ← Array.length_toList, toList_bytes_assembled, List.drop_left]

theorem Accepted.nextStartsAt (accepted : Accepted script code)
    (split : script = before ++ after) :
    NextStartsAt (labelsOf script) code (assembled (labelsOf script) before).size
      (calls after) := by
  have behind := accepted.drop_toList split
  have made : ∀ call ∈ calls after,
      ∃ directive, call.directive (labelsOf script) = .ok directive := by
    intro call member
    exact accepted.made call (by simp [split, member])
  have encodings := forall₂_makes_written made
  unfold emitted at behind
  generalize calls after = left, written (labelsOf script) after = directives at behind encodings ⊢
  cases encodings with
  | nil => exact behind
  | @cons call directive rest directives makes _ =>
    refine ⟨directive, makes, ?_⟩
    rw [behind, List.flatMap_cons, List.append_assoc]
    exact List.prefix_append _ _

/-- The two passes over an accepted script agree.  Wherever it is cut, the first pass has reached the
length of what the second has written, which goes on from there; a label that is defined there
stands for that length, and is where the next call, or the final `halt`, is encoded.  The
program is one encoding after the other, one for each call, and a `halt`, and is as long as
the sizes of the calls say. -/
theorem passes_agree (compiled : compile script = .ok code) :
    (∀ before after, script = before ++ after →
      (Layout.ofScript before).offset = (assembled (labelsOf script) before).size ∧
      (((assembled (labelsOf script) before).writeAll (written (labelsOf script) after)).emit .halt
        (.integer 0)).bytes = code ∧
      ∀ name span rest, after = .label name span :: rest →
        (labelsOf script).lookup name = some (assembled (labelsOf script) before).size ∧
        NextStartsAt (labelsOf script) code (assembled (labelsOf script) before).size
          (calls rest)) ∧
    (∃ directives, List.Forall₂ (Makes (labelsOf script)) (calls script) directives ∧
      code.toList = directives.flatMap Directive.encode ++ [Opcode.halt.byte]) ∧
    code.size = ((calls script).map Call.size).sum + 1 := by
  have accepted := compile_eq_ok_iff.mp compiled
  refine ⟨fun before after split => ⟨accepted.offset_eq_size_assembled split,
    accepted.emit_halt_eq split, ?_⟩, ⟨_, forall₂_makes_written accepted.made, accepted.bytes⟩, ?_⟩
  · rintro name span rest rfl
    have next := accepted.nextStartsAt split
    refine ⟨?_, next⟩
    rw [lookup_labelsOf accepted.unique split, size_assembled (accepted.made_of_split split)]
  · rw [← Array.length_toList, accepted.bytes, List.length_append, length_emitted accepted.made,
      extent_eq_sum]
    rfl

/-- The script `a: db() b: jump(c) db(1, 300) c:`. -/
def emptyData : List Statement :=
  [.label "a" default,
    .call ⟨"db", [], default⟩,
    .label "b" default,
    .call ⟨"jump", [⟨.label "c", default⟩], default⟩,
    .call ⟨"db", [⟨.number 1, default⟩, ⟨.number 300, default⟩], default⟩,
    .label "c" default]

/-- A call that writes nothing leaves both passes where they are, and the last label stands for the
final `halt`. -/
theorem passes_emptyData :
    compile emptyData = .ok #[0xFE, 5, 0, 1, 44, 0xFF] ∧
    (Layout.ofScript (emptyData.take 2)).offset =
      (assembled (labelsOf emptyData) (emptyData.take 2)).size ∧
    (labelsOf emptyData).lookup "b" =
      some (assembled (labelsOf emptyData) (emptyData.take 2)).size ∧
    NextStartsAt (labelsOf emptyData) #[0xFE, 5, 0, 1, 44, 0xFF]
      (assembled (labelsOf emptyData) (emptyData.take 2)).size (calls (emptyData.drop 3)) ∧
    (labelsOf emptyData).lookup "c" =
      some (assembled (labelsOf emptyData) (emptyData.take 5)).size ∧
    NextStartsAt (labelsOf emptyData) #[0xFE, 5, 0, 1, 44, 0xFF]
      (assembled (labelsOf emptyData) (emptyData.take 5)).size [] ∧
    6 = ((calls emptyData).map Call.size).sum + 1 := by
  have compiled : compile emptyData = .ok #[0xFE, 5, 0, 1, 44, 0xFF] := by decide
  obtain ⟨cuts, -, size⟩ := passes_agree compiled
  obtain ⟨reached, -, early⟩ := cuts (emptyData.take 2) (emptyData.drop 2) rfl
  obtain ⟨-, -, late⟩ := cuts (emptyData.take 5) (emptyData.drop 5) rfl
  obtain ⟨early, next⟩ := early "b" default (emptyData.drop 3) rfl
  obtain ⟨late, last⟩ := late "c" default [] rfl
  exact ⟨compiled, reached, early, next, late, last, size⟩

end Sequencer.Script
