import Sequencer.Song

/-!
# Where the programs of a song lie

Every script of a song has its program in the buffer, at its base.

* `withScript_eq_ok_iff` — what packing one more script does.
* `Packed`, `packed_of_compile` — the place of each program.
-/

namespace Sequencer.Song

/-- The program of a script lies in the buffer where the base says, whatever is around it. -/
def Packed (song : Song) (index : Nat) (source : String) : Prop :=
  ∃ program base before after, compileSource source = .ok program ∧
    song.bases[index]? = some base ∧ base.toNat = before.length ∧
    song.bytecode.toList = before ++ (program.toList ++ after)

theorem withScript_eq_ok_iff {song next : Song} {source : String} :
    song.withScript source = .ok next ↔ ∃ program, compileSource source = .ok program ∧
      song.bytecode.size < 65536 ∧
      next = ⟨song.bytecode ++ program, song.bases ++ [UInt16.ofNat song.bytecode.size]⟩ := by
  unfold withScript withTrack
  cases compileSource source with
  | error rejection => simp
  | ok program =>
    by_cases reachable : song.bytecode.size < 65536
    · simp [reachable, eq_comm]
    · simp [reachable]

/-- What has been packed stays where it is. -/
theorem Packed.withScript {song next : Song} {index : Nat} {source other : String}
    (packed : song.Packed index source) (appended : song.withScript other = .ok next) :
    next.Packed index source := by
  obtain ⟨program, base, before, after, compiled, listed, start, layout⟩ := packed
  obtain ⟨program', -, -, rfl⟩ := withScript_eq_ok_iff.mp appended
  refine ⟨program, base, before, after ++ program'.toList, compiled, ?_, start, ?_⟩
  · rw [List.getElem?_append_left (List.getElem?_eq_some_iff.mp listed).1]
    exact listed
  · simp [layout]

theorem packed_withScript {song next : Song} {source : String}
    (appended : song.withScript source = .ok next) :
    next.Packed song.bases.length source ∧ next.bases.length = song.bases.length + 1 := by
  obtain ⟨program, compiled, reachable, rfl⟩ := withScript_eq_ok_iff.mp appended
  refine ⟨⟨program, UInt16.ofNat song.bytecode.size, song.bytecode.toList, [], compiled, ?_, ?_, ?_⟩, ?_⟩
  · simp
  · rw [UInt16.toNat_ofNat', Nat.mod_eq_of_lt reachable, Array.length_toList]
  · simp
  · simp

theorem packed_of_foldlM {sources : List String} {start song : Song}
    (folded : sources.foldlM withScript start = .ok song) :
    (∀ index source, start.Packed index source → song.Packed index source) ∧
      ∀ index source, sources[index]? = some source →
        song.Packed (start.bases.length + index) source := by
  -- over any start, since each script finds the buffer longer than the one before
  induction sources generalizing start with
  | nil =>
    cases folded
    exact ⟨fun _ _ packed => packed, fun index source listed => by simp at listed⟩
  | cons first sources ih =>
    rw [List.foldlM_cons] at folded
    cases appended : start.withScript first with
    | error failure => simp [appended, bind, Except.bind] at folded
    | ok next =>
      rw [appended] at folded
      obtain ⟨kept, later⟩ := ih folded
      obtain ⟨placed, longer⟩ := packed_withScript appended
      refine ⟨fun index source packed => kept _ _ (packed.withScript appended), ?_⟩
      intro index source listed
      cases index with
      | zero =>
        obtain rfl : first = source := by simpa using listed
        exact kept _ _ placed
      | succ index =>
        have further := later index source (by simpa using listed)
        rw [longer] at further
        rw [show start.bases.length + (index + 1) = start.bases.length + 1 + index by omega]
        exact further

/-- Every script of a song that is compiled has its program at its base. -/
theorem packed_of_compile {sources : List String} {song : Song}
    (compiled : Song.compile sources = .ok song) {index : Nat} {source : String}
    (listed : sources[index]? = some source) : song.Packed index source := by
  have placed := (packed_of_foldlM compiled).2 index source listed
  rwa [show ({} : Song).bases.length = 0 from rfl, Nat.zero_add] at placed

/-- A script that is compiled makes a song of its own. -/
theorem compile_singleton {source : String} {program : Bytecode}
    (compiled : compileSource source = .ok program) :
    Song.compile [source] = .ok ⟨program, [0]⟩ := by
  have appended : ({} : Song).withScript source = .ok ⟨program, [0]⟩ :=
    withScript_eq_ok_iff.mpr ⟨program, compiled, by decide, by simp⟩
  rw [Song.compile, List.foldlM_cons, appended]
  rfl

end Sequencer.Song
