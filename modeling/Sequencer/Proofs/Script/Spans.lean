import Sequencer.Proofs.Script.Failures
import Sequencer.Proofs.Script.Faults

/-!
# What spans take out of a text

A span counts bytes, but it begins and ends where a character does.

* `Span.Cuts` — a span takes a piece out of a text.
* `InOrder` — spans one behind the other, without an overlap.
* `ScriptText.cuts`, `ScriptText.inOrder` — so do the spans of statements and arguments that have
  been read, and they are in order; `cuts_of_parse` is about the failure of a script that has not.
* `mem_spans_of_mem_faults` — faults are about statements and arguments.
-/

namespace Sequencer.Script

/-- Whether a span takes the piece out of a text that starts at the offset. -/
def Span.Cuts (span : Span) (offset : Nat) (text piece : List Char) : Prop :=
  ∃ before after, text = before ++ (piece ++ after) ∧
    span = ⟨offset + utf8Length before, offset + utf8Length before + utf8Length piece⟩

/-- Whether each span ends before the next one starts. -/
def InOrder (spans : List Span) : Prop :=
  spans.Pairwise fun earlier later => earlier.stop ≤ later.start

/-- The span of the whole statement. -/
def Statement.span : Statement → Span
  | .label _ span => span
  | .call made => made.span

/-- The spans of a statement and of its arguments. -/
def Statement.spans : Statement → List Span
  | .label _ span => [span]
  | .call made => made.span :: made.arguments.map Argument.span

theorem Span.Cuts.bounds {span : Span} {offset : Nat} {text piece : List Char}
    (cuts : span.Cuts offset text piece) :
    offset ≤ span.start ∧ span.start ≤ span.stop ∧ span.stop ≤ offset + utf8Length text := by
  obtain ⟨before, after, rfl, rfl⟩ := cuts
  simp only [utf8Length_append]
  omega

/-- A span goes in front of others that start where it ends or later. -/
theorem InOrder.cons {span : Span} {spans : List Span} (later : InOrder spans)
    (apart : ∀ other ∈ spans, span.stop ≤ other.start) : InOrder (span :: spans) :=
  List.pairwise_cons.mpr ⟨apart, later⟩

/-- What is taken out of a part of a text is taken out of the whole. -/
theorem Span.Cuts.within {span : Span} {offset start : Nat} {text piece : List Char}
    (cuts : span.Cuts start text piece) (front back : List Char)
    (reached : start = offset + utf8Length front) :
    span.Cuts offset (front ++ (text ++ back)) piece := by
  obtain ⟨before, after, rfl, rfl⟩ := cuts
  refine ⟨front ++ before, after ++ back, by simp, ?_⟩
  rw [reached, utf8Length_append, Nat.add_assoc]

theorem Span.Cuts.behind {span : Span} {offset : Nat} {front middle text piece : List Char}
    (cuts : span.Cuts (offset + utf8Length front + utf8Length middle) text piece) :
    span.Cuts offset (front ++ (middle ++ text)) piece := by
  have reached : offset + utf8Length front + utf8Length middle =
      offset + utf8Length (front ++ middle) := by
    rw [utf8Length_append, Nat.add_assoc]
  simpa using cuts.within (front ++ middle) [] reached

/-! ## Statements that have been read -/

section Grammar

variable {offset : Nat} {text : List Char}

theorem ArgumentText.cuts {argument : Argument} (spelled : ArgumentText offset text argument) :
    ∃ piece, argument.span.Cuts offset text piece ∧ ValueText piece argument.value := by
  obtain ⟨before, value, after⟩ := spelled
  exact ⟨_, ⟨_, _, rfl, rfl⟩, value⟩

theorem FurtherText.cuts {arguments : List Argument}
    (spelled : FurtherText offset text arguments) :
    ∀ argument ∈ arguments, ∃ piece,
      argument.span.Cuts offset text piece ∧ ValueText piece argument.value := by
  induction spelled with
  | nil => simp
  | @cons offset text rest argument arguments head tail ih =>
    refine List.forall_mem_cons.mpr ⟨?_, fun other member => ?_⟩
    · obtain ⟨piece, cuts, value⟩ := head.cuts
      exact ⟨piece, cuts.within [','] rest rfl, value⟩
    · obtain ⟨piece, cuts, value⟩ := ih other member
      have comma : utf8Length [','] = 1 := rfl
      rw [← comma] at cuts
      exact ⟨piece, cuts.behind, value⟩

theorem ArgumentsText.cuts {arguments : List Argument}
    (spelled : ArgumentsText offset text arguments) :
    ∀ argument ∈ arguments, ∃ piece,
      argument.span.Cuts offset text piece ∧ ValueText piece argument.value := by
  cases spelled with
  | none => simp
  | @some text more comma argument arguments head tail _ =>
    refine List.forall_mem_cons.mpr ⟨?_, fun other member => ?_⟩
    · obtain ⟨piece, cuts, value⟩ := head.cuts
      exact ⟨piece, cuts.within [] _ rfl, value⟩
    · obtain ⟨piece, cuts, value⟩ := tail.cuts other member
      exact ⟨piece, cuts.within text comma rfl, value⟩

theorem StatementText.cuts {statement : Statement}
    (spelled : StatementText offset text statement) :
    ∀ span ∈ statement.spans, ∃ piece, span.Cuts offset text piece := by
  have whole : (⟨offset, offset + utf8Length text⟩ : Span).Cuts offset text text :=
    ⟨[], [], by simp, by simp⟩
  cases spelled with
  | label => exact List.forall_mem_singleton.mpr ⟨_, whole⟩
  | @call name blanks inner semicolon _ arguments _ _ given =>
    refine List.forall_mem_cons.mpr ⟨⟨_, whole⟩, List.forall_mem_map.mpr fun argument member => ?_⟩
    obtain ⟨piece, cuts, -⟩ := given.cuts argument member
    have inside := cuts.within (name ++ (blanks ++ ['('])) (')' :: semicolon) rfl
    exact ⟨piece, by simpa using inside⟩

theorem ScriptText.cuts {script : List Statement} (spelled : ScriptText offset text script) :
    ∀ statement ∈ script, ∀ span ∈ statement.spans, ∃ piece, span.Cuts offset text piece := by
  induction spelled with
  | closing => simp
  | @statement offset gap text rest statement script _ spelled _ ih =>
    refine List.forall_mem_cons.mpr ⟨fun span listed => ?_, fun other member span listed => ?_⟩
    · obtain ⟨piece, cuts⟩ := spelled.cuts span listed
      exact ⟨piece, cuts.within gap rest rfl⟩
    · obtain ⟨piece, cuts⟩ := ih other member span listed
      exact ⟨piece, cuts.behind⟩

/-! ## Their order -/

/-- The arguments behind a place are in order with one that has ended there. -/
theorem InOrder.cons_argument {argument : Argument} {arguments : List Argument} {place : Nat}
    {rest : List Char} (later : InOrder (arguments.map Argument.span))
    (ended : argument.span.stop ≤ place) (tail : FurtherText place rest arguments) :
    InOrder ((argument :: arguments).map Argument.span) := by
  refine later.cons (List.forall_mem_map.mpr fun other member => ?_)
  obtain ⟨piece, cuts, -⟩ := tail.cuts other member
  exact ended.trans cuts.bounds.1

theorem FurtherText.inOrder {arguments : List Argument}
    (spelled : FurtherText offset text arguments) : InOrder (arguments.map Argument.span) := by
  induction spelled with
  | nil => exact .nil
  | cons head tail ih =>
    obtain ⟨piece, cuts, -⟩ := head.cuts
    exact ih.cons_argument cuts.bounds.2.2 tail

theorem ArgumentsText.inOrder {arguments : List Argument}
    (spelled : ArgumentsText offset text arguments) : InOrder (arguments.map Argument.span) := by
  cases spelled with
  | none => exact .nil
  | some head tail =>
    obtain ⟨piece, cuts, -⟩ := head.cuts
    exact tail.inOrder.cons_argument cuts.bounds.2.2 tail

theorem StatementText.span_eq {statement : Statement}
    (spelled : StatementText offset text statement) :
    statement.span = ⟨offset, offset + utf8Length text⟩ := by
  cases spelled with
  | label | call => rfl

theorem Statement.span_mem_spans (statement : Statement) : statement.span ∈ statement.spans := by
  cases statement with
  | label | call => exact List.mem_cons_self

theorem ScriptText.inOrder {script : List Statement} (spelled : ScriptText offset text script) :
    InOrder (script.map Statement.span) := by
  induction spelled with
  | closing => exact .nil
  | statement _ spelled after ih =>
    refine ih.cons (List.forall_mem_map.mpr fun other member => ?_)
    obtain ⟨piece, cuts⟩ := after.cuts other member _ other.span_mem_spans
    rw [spelled.span_eq]
    exact cuts.bounds.1

end Grammar

/-! ## Scripts that are rejected -/

/-- A failure is about one character, or about the end of the text. -/
theorem cuts_of_parse {source : String} {failure : Failure}
    (failed : parse source = .error failure) :
    ∃ piece, failure.span.Cuts 0 source.toList piece ∧ piece.length ≤ 1 := by
  obtain ⟨-, front, place, passes, span, -⟩ := failure_of_parse failed
  obtain ⟨piece, after, split, short, next⟩ := passes.exists_piece
  exact ⟨piece, ⟨front, after, split, by simpa using span.trans next⟩, short⟩

theorem mem_of_mem_calls {script : List Statement} {call : Call}
    (member : call ∈ calls script) : .call call ∈ script := by
  obtain ⟨statement, listed, same⟩ := List.mem_filterMap.mp member
  cases statement with
  | label => cases same
  | call made =>
    obtain rfl := Option.some.inj same
    exact listed

theorem Call.Blamed.mem_spans {names : List String} {call : Call} {fault : Fault}
    (bad : call.Blamed names fault) : fault.span ∈ (Statement.call call).spans := by
  cases bad with
  | unknown | arity => exact List.mem_cons_self
  | @argument width before after argument fault takes given _ bad =>
    have member : argument.span ∈ call.arguments.map Argument.span :=
      List.mem_map_of_mem (by simp [given])
    cases bad with
    | notAllowed | undefined => exact List.mem_cons_of_mem _ member

theorem Listed.exists_blamed {names : List String} {listed : List Call} {found : List Fault}
    (lists : Listed names listed found) :
    ∀ fault ∈ found, ∃ call ∈ listed, call.Blamed names fault := by
  induction lists with
  | nil => simp
  | wellFormed _ _ ih =>
    intro fault member
    obtain ⟨call, listed, bad⟩ := ih fault member
    exact ⟨call, List.mem_cons_of_mem _ listed, bad⟩
  | @blamed call _ _ _ bad _ ih =>
    refine List.forall_mem_cons.mpr ⟨⟨call, List.mem_cons_self, bad⟩, fun fault member => ?_⟩
    obtain ⟨call, listed, bad⟩ := ih fault member
    exact ⟨call, List.mem_cons_of_mem _ listed, bad⟩

/-- A fault is about a statement, or about one of its arguments. -/
theorem mem_spans_of_mem_faults {script : List Statement} {fault : Fault}
    (member : fault ∈ faults script) : ∃ statement ∈ script, fault.span ∈ statement.spans := by
  obtain ⟨flaws, lists, same⟩ := faults_eq_append_iff.mp (Eq.refl (faults script))
  rw [same] at member
  obtain repeated | flawed := List.mem_append.mp member
  · obtain ⟨⟨statement, index⟩, listed, found⟩ := List.mem_filterMap.mp repeated
    refine ⟨statement, List.fst_mem_of_mem_zipIdx listed, ?_⟩
    cases statement with
    | call made => cases found
    | label name span =>
      simp only [Statement.repetition?, Option.ite_none_right_eq_some, Option.some.injEq] at found
      rw [← found.2]
      exact List.mem_singleton_self span
  · obtain ⟨call, listed, bad⟩ := lists.exists_blamed fault flawed
    exact ⟨.call call, mem_of_mem_calls listed, bad.mem_spans⟩

end Sequencer.Script
