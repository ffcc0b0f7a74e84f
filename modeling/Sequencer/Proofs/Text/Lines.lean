import Mathlib.Data.List.TakeWhile
import Sequencer.Text.Lines

/-!
# Where a line stands

The lines of a text, one behind the other, are the text.  So a character has one line, and
so many characters of it in front.

* `flatMap_text_lines` — nothing is lost.
* `lines_eq_append_cons` — the number of a line and where it starts.
* `lineAt_of_split` — the line of a character, `lineAt_mem` a line for any offset.
-/

namespace Sequencer.Text

theorem flatten_closeLines (line : List Char) (before : List (List Char)) :
    (closeLines line before).flatten = before.reverse.flatten ++ line.reverse := by
  unfold closeLines
  split
  next closed =>
    have empty : line = [] := List.isEmpty_iff.mp (Bool.and_eq_true_iff.mp closed).1
    simp [empty]
  next => simp

/-- Cutting a text loses nothing of it. -/
theorem flatten_cutLines (text line : List Char) (before : List (List Char)) :
    (cutLines text line before).flatten = before.reverse.flatten ++ (line.reverse ++ text) := by
  fun_induction cutLines text line before with
  | case1 line before => simp [flatten_closeLines]
  | case2 _ _ _ ih | case3 _ _ _ _ _ _ ih | case4 _ _ _ _ _ _ ih =>
    rw [ih]
    simp

theorem cutLines_ne_nil (text line : List Char) (before : List (List Char)) :
    cutLines text line before ≠ [] := by
  fun_induction cutLines text line before with
  | case1 line before =>
    unfold closeLines
    split
    next closed =>
      have some : before.isEmpty = false := by simpa using (Bool.and_eq_true_iff.mp closed).2
      simpa using some
    next => simp
  | case2 _ _ _ ih | case3 _ _ _ _ _ _ ih | case4 _ _ _ _ _ _ ih => exact ih

theorem placeLines_eq_append (texts : List (List Char)) (number start : Nat)
    (before : List TextLine) :
    placeLines texts number start before = before.reverse ++ placeLines texts number start [] := by
  induction texts generalizing number start before with
  | nil => simp [placeLines]
  | cons text rest ih =>
    rw [placeLines, ih, placeLines, ih _ _ [_]]
    simp

theorem placeLines_cons (text : List Char) (rest : List (List Char)) (number start : Nat) :
    placeLines (text :: rest) number start [] =
      ⟨number, start, text⟩ :: placeLines rest (number + 1) (start + text.length) [] := by
  rw [placeLines, placeLines_eq_append]
  rfl

theorem map_text_placeLines (texts : List (List Char)) (number start : Nat) :
    (placeLines texts number start []).map TextLine.text = texts := by
  induction texts generalizing number start with
  | nil => rfl
  | cons text rest ih => rw [placeLines_cons, List.map_cons, ih]

/-- A line has the number of lines before it, and starts where they end. -/
theorem placeLines_eq_append_cons {texts : List (List Char)} {number start : Nat}
    {earlier later : List TextLine} {line : TextLine}
    (split : placeLines texts number start [] = earlier ++ line :: later) :
    line.number = number + earlier.length ∧
      line.start = start + (earlier.flatMap TextLine.text).length := by
  induction texts generalizing number start earlier with
  | nil => simp [placeLines] at split
  | cons text rest ih =>
    rw [placeLines_cons] at split
    cases earlier with
    | nil =>
      obtain ⟨rfl, -⟩ := List.cons.inj split
      exact ⟨rfl, rfl⟩
    | cons first earlier =>
      rw [List.cons_append] at split
      obtain ⟨rfl, behind⟩ := List.cons.inj split
      obtain ⟨numbered, starts⟩ := ih behind
      simp only [numbered, starts, List.length_cons, List.flatMap_cons, List.length_append]
      omega

/-- The line that a character of so many lines falls into. -/
theorem exists_split_of_lt (placed : List TextLine) {index : Nat}
    (inside : index < (placed.flatMap TextLine.text).length) :
    ∃ earlier line later column, placed = earlier ++ line :: later ∧ column < line.text.length ∧
      index = (earlier.flatMap TextLine.text).length + column := by
  induction placed generalizing index with
  | nil => cases inside
  | cons first rest ih =>
    by_cases near : index < first.text.length
    · exact ⟨[], first, rest, index, rfl, near, (Nat.zero_add index).symm⟩
    · rw [List.flatMap_cons, List.length_append] at inside
      have behind : index - first.text.length < (rest.flatMap TextLine.text).length := by omega
      obtain ⟨earlier, line, later, column, rfl, short, same⟩ := ih behind
      refine ⟨first :: earlier, line, later, column, rfl, short, ?_⟩
      rw [List.flatMap_cons, List.length_append]
      omega

section Lines

variable {text : List Char} {earlier later : List TextLine} {line : TextLine} {offset : Nat}

theorem flatMap_text_lines (text : List Char) : (lines text).flatMap TextLine.text = text := by
  rw [lines, List.flatMap, map_text_placeLines, flatten_cutLines]
  rfl

theorem lines_eq_append_cons (split : lines text = earlier ++ line :: later) :
    line.number = earlier.length ∧ line.start = (earlier.flatMap TextLine.text).length := by
  simpa using placeLines_eq_append_cons split

/-- Lines have different numbers. -/
theorem eq_of_number_eq {other : TextLine} (member : line ∈ lines text)
    (member' : other ∈ lines text) (same : line.number = other.number) : line = other := by
  obtain ⟨earlier, later, split⟩ := List.append_of_mem member
  obtain ⟨earlier', later', split'⟩ := List.append_of_mem member'
  rw [(lines_eq_append_cons split).1, (lines_eq_append_cons split').1] at same
  obtain ⟨-, rest⟩ := List.append_inj (split.symm.trans split') same
  exact (List.cons.inj rest).1

/-- Lines start in the order they stand in. -/
theorem start_le_of_split (split : lines text = earlier ++ line :: later) :
    ∀ other ∈ earlier, other.start ≤ line.start := by
  intro other member
  obtain ⟨front, back, rfl⟩ := List.append_of_mem member
  have placed : lines text = front ++ other :: (back ++ line :: later) := by simp [split]
  rw [(lines_eq_append_cons split).2, (lines_eq_append_cons placed).2, List.flatMap_append,
    List.length_append]
  exact Nat.le_add_right _ _

/-- The line behind starts where a line stops. -/
theorem start_next_of_split {next : TextLine}
    (split : lines text = earlier ++ line :: next :: later) : next.start = line.stop := by
  have placed : lines text = (earlier ++ [line]) ++ next :: later := by simp [split]
  rw [(lines_eq_append_cons placed).2, TextLine.stop, (lines_eq_append_cons split).2]
  simp

/-- A character's line is the last one that starts before it. -/
theorem lineAt_of_split (split : lines text = earlier ++ line :: later)
    (starts : line.start ≤ offset) (inside : offset < line.stop) :
    lineAt (lines text) offset = line := by
  have stops : later.takeWhile (·.start ≤ offset) = [] := by
    cases later with
    | nil => rfl
    | cons next later =>
      have behind : ¬ next.start ≤ offset := by
        rw [start_next_of_split split]
        omega
      simp [behind]
  have passes : ∀ other ∈ earlier, decide (other.start ≤ offset) = true := fun other member =>
    decide_eq_true (Nat.le_trans (start_le_of_split split other member) starts)
  rw [lineAt, split, List.takeWhile_append_of_pos passes]
  simp [starts, stops, List.getLastD_eq_getLast?]

/-- Any offset has a line that starts there or in front of it. -/
theorem lineAt_mem (text : List Char) (offset : Nat) :
    lineAt (lines text) offset ∈ lines text ∧ (lineAt (lines text) offset).start ≤ offset := by
  have some : (lines text).takeWhile (·.start ≤ offset) ≠ [] := by
    unfold lines
    cases cut : cutLines text [] [] with
    | nil => exact absurd cut (cutLines_ne_nil text [] [])
    | cons first rest => simp [placeLines_cons]
  have last : lineAt (lines text) offset ∈ (lines text).takeWhile (·.start ≤ offset) := by
    rw [lineAt, List.getLastD_eq_getLast?, List.getLast?_eq_some_getLast some]
    exact List.getLast_mem some
  exact ⟨(List.takeWhile_sublist _).mem last, by simpa using List.mem_takeWhile_imp last⟩

end Lines

end Sequencer.Text
