import Sequencer.Rejection
import Sequencer.Proofs.Script.Spans
import Sequencer.Proofs.Script.Writing
import Sequencer.Proofs.Text.Lines

/-!
# The place that a report names

A report is about a span, which counts bytes, and a document is cut into lines of
characters.  So the place that is printed may be another one than the character's.

* `Document.Places` — the row and the column of a character, `places_iff` that it has one.
* `Report.Names` — the place that is printed, `names_iff` what is printed.
* `report_names_start_iff` — a report names the character that its span starts at, unless one
  in front of it takes more than a byte or the span runs off the text.
-/

namespace Sequencer

open Script (Span utf8Length)
open Text (TextLine)

/-! ## Rows and columns -/

namespace Document

/-- Whether a character stands at the place: its row counts the lines up to its own, its
column the characters of the line up to itself. -/
def Places (document : Document) (index : Nat) (place : Nat × Nat) : Prop :=
  ∃ earlier line later column, document.lines = earlier ++ line :: later ∧
    column < line.text.length ∧ index = (earlier.flatMap TextLine.text).length + column ∧
    place = (earlier.length + 1, column + 1)

variable {source : String} {index offset other : Nat} {place : Nat × Nat}

theorem location_of_places (placed : (ofString source).Places index place) :
    place = (ofString source).location index := by
  obtain ⟨earlier, line, later, column, split, inside, rfl, rfl⟩ := placed
  have cut : Text.lines source.toList = earlier ++ line :: later := split
  obtain ⟨number, start⟩ := Text.lines_eq_append_cons cut
  have found : Text.lineAt (Text.lines source.toList) (line.start + column) = line :=
    Text.lineAt_of_split cut (Nat.le_add_right _ _) (Nat.add_lt_add_left inside _)
  rw [location, ← start, split, ← cut, found, number, Nat.add_sub_cancel_left]

/-- Every character has one place, the one that is looked up. -/
theorem places_iff (inside : index < source.toList.length) :
    (ofString source).Places index place ↔ place = (ofString source).location index := by
  refine ⟨location_of_places, ?_⟩
  rintro rfl
  rw [← Text.flatMap_text_lines source.toList] at inside
  obtain ⟨earlier, line, later, column, split, short, same⟩ :=
    Text.exists_split_of_lt _ inside
  have placed : (ofString source).Places index (earlier.length + 1, column + 1) :=
    ⟨earlier, line, later, column, split, short, same, rfl⟩
  rwa [← location_of_places placed]

/-- No two offsets have the same row and column, even behind the end of the text. -/
theorem location_injective (source : String) : Function.Injective (ofString source).location := by
  intro offset other same
  obtain ⟨member, starts⟩ := Text.lineAt_mem source.toList offset
  obtain ⟨member', starts'⟩ := Text.lineAt_mem source.toList other
  obtain ⟨row, column⟩ := Prod.mk.inj same
  have line := Text.eq_of_number_eq member member' (Nat.succ.inj row)
  simp only [ofString, line] at starts column
  omega

end Document

/-! ## What is printed -/

namespace Report

/-- The first row of a drawing. -/
def headline (digits : Nat) (place : Nat × Nat) : String :=
  margin digits ++ "╭─[ <unknown>:" ++ Text.decimal place.1 ++ ":" ++ Text.decimal place.2 ++ " ]"

/-- Whether the row under the message names the place. -/
def Names (document : Document) (report : Report) (place : Nat × Nat) : Prop :=
  ∃ digits rest, report.render document =
    "Error: " ++ report.message ++ "\n" ++ (headline digits place ++ "\n" ++ rest)

variable {document : Document} {report : Report} {place other : Nat × Nat}

theorem toList_headline (digits : Nat) (place : Nat × Nat) (rest : String) :
    (headline digits place ++ "\n" ++ rest).toList =
      List.replicate (digits + 2) ' ' ++ ('╭' :: ("─[ <unknown>:".toList ++
        (Nat.toDigits 10 place.1 ++ (':' :: (Nat.toDigits 10 place.2 ++
          (' ' :: ']' :: '\n' :: rest.toList)))))) := by
  simp [headline, margin, times, Text.decimal]

/-- A row names one place, however wide its margin is. -/
theorem headline_injective {digits digits' : Nat} {rest rest' : String}
    (same : headline digits place ++ "\n" ++ rest = headline digits' other ++ "\n" ++ rest') :
    place = other := by
  have blanks : ∀ count, ∀ c ∈ List.replicate count ' ', (c == ' ') = true := by
    rintro count c member
    simp [List.eq_of_mem_replicate member]
  have numeral : ∀ n, ∀ c ∈ Nat.toDigits 10 n, c.isDigit = true := fun _ _ =>
    Nat.isDigit_of_mem_toDigits (by decide) (by decide)
  rw [← String.toList_inj, toList_headline, toList_headline] at same
  obtain ⟨-, same⟩ := Script.append_inj_of_stops (blanks _) (blanks _)
    (Script.stops_cons.mpr rfl) (Script.stops_cons.mpr rfl) same
  obtain ⟨row, same⟩ := Script.append_inj_of_stops (numeral _) (numeral _)
    (Script.stops_cons.mpr rfl) (Script.stops_cons.mpr rfl)
    (List.append_cancel_left (List.cons.inj same).2)
  obtain ⟨column, -⟩ := Script.append_inj_of_stops (numeral _) (numeral _)
    (Script.stops_cons.mpr rfl) (Script.stops_cons.mpr rfl) (List.cons.inj same).2
  exact Prod.ext (Script.decimal_injective (congrArg String.ofList row))
    (Script.decimal_injective (congrArg String.ofList column))

theorem heading_eq (document : Document) (digits offset : Nat) :
    heading document digits offset =
      [headline digits (document.location offset), margin digits ++ "│"] := by
  simp only [heading, headline]

theorem names_location (inside : report.isOutside document = false) :
    report.Names document (document.location report.span.start) := by
  simp only [Names, render, inside, Bool.false_eq_true, ↓reduceIte, drawing, heading_eq,
    List.cons_append, List.map_cons, String.join_cons, String.append_assoc]
  exact ⟨_, _, rfl⟩

/-- A report without a drawing names no place. -/
theorem Names.inside (names : report.Names document place) :
    report.isOutside document = false := by
  obtain ⟨digits, rest, shown⟩ := names
  by_contra outside
  simp only [Bool.not_eq_false] at outside
  have empty : "" = headline digits place ++ "\n" ++ rest := by
    refine (String.append_right_inj ("Error: " ++ report.message ++ "\n")).mp ?_
    rw [← shown, render, if_pos outside, String.append_empty]
    simp [String.join_cons]
  have drawn := toList_headline digits place rest
  rw [← empty] at drawn
  simp [List.replicate_succ] at drawn

/-- What is printed is the place at which the span starts, taken for a number of characters. -/
theorem names_iff :
    report.Names document place ↔
      report.isOutside document = false ∧ place = document.location report.span.start := by
  constructor
  · intro names
    have inside := names.inside
    obtain ⟨digits, rest, shown⟩ := names
    obtain ⟨digits', rest', shown'⟩ := names_location inside
    exact ⟨inside, headline_injective
      ((String.append_right_inj ("Error: " ++ report.message ++ "\n")).mp (shown.symm.trans shown'))⟩
  · rintro ⟨inside, rfl⟩
    exact names_location inside

theorem isOutside_eq_false_iff :
    report.isOutside document = false ↔ report.span.start ≤ document.length ∧
      (report.span.stop ≤ report.span.start ∨ report.span.stop ≤ document.length + 1) := by
  simp only [isOutside, Bool.or_eq_false_iff, Bool.and_eq_false_iff, decide_eq_false_iff_not]
  omega

end Report

/-! ## The place of an error -/

/-- What a rejected text is reported for is a piece of it. -/
theorem cuts_of_mem_reports {source : String} {rejection : Rejection} {report : Report}
    (rejected : compileSource source = .error rejection) (reported : report ∈ rejection.reports) :
    ∃ piece, report.span.Cuts 0 source.toList piece := by
  unfold compileSource at rejected
  split at rejected
  next failure failed =>
    obtain rfl := Except.error.inj rejected
    obtain rfl := List.mem_singleton.mp reported
    obtain ⟨piece, cuts, -⟩ := Script.cuts_of_parse failed
    exact ⟨piece, cuts⟩
  next script parsed =>
    split at rejected
    next found compiled =>
      obtain rfl := Except.error.inj rejected
      obtain ⟨fault, member, rfl⟩ := List.mem_map.mp reported
      rw [(Script.compile_eq_error_iff_faults.mp compiled).2] at member
      obtain ⟨statement, listed, spans⟩ := Script.mem_spans_of_mem_faults member
      exact (Script.scriptText_of_parse parsed).cuts statement listed _ spans
    next => cases rejected

theorem length_le_utf8Length (text : List Char) : text.length ≤ utf8Length text := by
  induction text with
  | nil => exact Nat.le_refl 0
  | cons c text ih =>
    have some := c.utf8Size_pos
    rw [Script.utf8Length_cons, List.length_cons]
    omega

/-- A text has as many bytes as characters just if each character takes one. -/
theorem utf8Length_eq_length_iff {text : List Char} :
    utf8Length text = text.length ↔ ∀ c ∈ text, c.utf8Size = 1 := by
  induction text with
  | nil => simp
  | cons c text ih =>
    have some := c.utf8Size_pos
    have more := length_le_utf8Length text
    rw [Script.utf8Length_cons, List.length_cons, List.forall_mem_cons, ← ih]
    omega

/-- Every report on a rejected text is about a piece of the text.  It names the row and the
column of the character that the piece starts with iff the characters in front take a byte
each and the text has enough characters for the bytes up to the piece's end. -/
theorem report_names_start_iff {source : String} {rejection : Rejection} {report : Report}
    (rejected : compileSource source = .error rejection) (reported : report ∈ rejection.reports) :
    (∃ piece, report.span.Cuts 0 source.toList piece) ∧
    ∀ before c after, source.toList = before ++ c :: after →
      report.span.start = utf8Length before →
      ∃ place, (∀ other, (Document.ofString source).Places before.length other ↔ other = place) ∧
        (report.Names (Document.ofString source) place ↔
          (∀ d ∈ before, d.utf8Size = 1) ∧ report.span.stop ≤ source.toList.length + 1) := by
  refine ⟨cuts_of_mem_reports rejected reported, fun before c after split starts => ?_⟩
  have inside : before.length < source.toList.length := by simp [split]
  refine ⟨_, fun other => Document.places_iff inside, ?_⟩
  rw [Report.names_iff, (Document.location_injective source).eq_iff, starts,
    @eq_comm _ before.length, utf8Length_eq_length_iff, And.comm]
  refine and_congr_right fun ascii => ?_
  have same := utf8Length_eq_length_iff.mpr ascii
  have length : (Document.ofString source).length = source.toList.length := rfl
  rw [Report.isOutside_eq_false_iff, length, starts]
  omega

/-- The fault of a call that starts at the offset. -/
def unknownCall (start : Nat) : Script.Fault :=
  .unknownMnemonic "bogus" ⟨start, start + 7⟩

theorem report_names_start_ascii :
    compileSource "play(1)\nbogus()" = .error (.faulty [unknownCall 8]) ∧
    (Report.ofFault (unknownCall 8)).Names (.ofString "play(1)\nbogus()") (2, 1) := by
  have rejected : compileSource "play(1)\nbogus()" = .error (.faulty [unknownCall 8]) := by
    decide +kernel
  obtain ⟨-, named⟩ := report_names_start_iff rejected (List.mem_singleton_self _)
  obtain ⟨place, unique, names⟩ :=
    named ['p', 'l', 'a', 'y', '(', '1', ')', '\n'] 'b' ['o', 'g', 'u', 's', '(', ')']
      (by decide) (by decide)
  have placed : (Document.ofString "play(1)\nbogus()").Places 8 (2, 1) :=
    (Document.places_iff (by decide +kernel)).mpr (by decide +kernel)
  obtain rfl := (unique _).mp placed
  exact ⟨rejected, names.mpr ⟨utf8Length_eq_length_iff.mp (by decide), by decide +kernel⟩⟩

/-- The accent takes two bytes, so the report names the column behind the call's first. -/
theorem report_misses_start_accent :
    compileSource "// é\nbogus()" = .error (.faulty [unknownCall 6]) ∧
    (unknownCall 6).span.start = utf8Length ['/', '/', ' ', 'é', '\n'] ∧
    (Document.ofString "// é\nbogus()").Places 5 (2, 1) ∧
    (Report.ofFault (unknownCall 6)).Names (.ofString "// é\nbogus()") (2, 2) ∧
    ¬(Report.ofFault (unknownCall 6)).Names (.ofString "// é\nbogus()") (2, 1) := by
  simp only [Report.names_iff]
  have placed : (Document.ofString "// é\nbogus()").Places 5 (2, 1) :=
    (Document.places_iff (by decide +kernel)).mpr (by decide +kernel)
  exact ⟨by decide +kernel, by decide, placed, by decide +kernel, by decide +kernel⟩

end Sequencer
