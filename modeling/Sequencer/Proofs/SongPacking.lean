import Mathlib.Algebra.GroupWithZero.Nat
import Mathlib.Data.List.Forall2
import Mathlib.Data.List.Induction
import Mathlib.Order.Monotone.Basic
import Sequencer.Proofs.Script.Emission
import Sequencer.Song

/-!
# How programs are packed

A song takes one program after the other.  Each has to start where 16 bits reach, and none is
asked where it ends, so a buffer may be longer than what 16 bits can count.

* `Song.startOf` — where a program starts, of programs one behind the other.
* `Song.Holds` — a song is those programs and their starts.  `Holds.withTrack` and
  `Holds.refuses` are about one program more, `holds_or_refused` about any number of them.
* `Song.Refused` — the error of the first item that cannot be packed.
* `Song.packs_in_order` — what comes of packing scripts, and of packing programs.
-/

namespace Sequencer.Song

/-! ## Where programs start -/

/-- The number of bytes in front of a program, of programs one behind the other. -/
def startOf (programs : List Bytecode) (index : Nat) : Nat :=
  ((programs.take index).map Array.size).sum

/-- Whether every program starts where 16 bits reach. -/
def Reachable (programs : List Bytecode) : Prop :=
  ∀ index < programs.length, startOf programs index ≤ 65535

/-- Whether a song is the programs one behind the other, with the place where each of them
starts. -/
structure Holds (song : Song) (programs : List Bytecode) : Prop where
  bytes : song.bytecode.toList = programs.flatMap Array.toList
  bases : song.bases.map UInt16.toNat = (List.range programs.length).map (startOf programs)

section Starts

variable {programs : List Bytecode} {program : Bytecode} {index : Nat} {song : Song}

theorem startOf_append_of_le (within : index ≤ programs.length) (more : List Bytecode) :
    startOf (programs ++ more) index = startOf programs index := by
  rw [startOf, startOf, List.take_append_of_le_length within]

theorem startOf_succ (inside : index < programs.length) :
    startOf programs (index + 1) = startOf programs index + programs[index].size := by
  simp only [startOf, List.take_succ_eq_append_getElem inside, List.map_append, List.sum_append,
    List.map_cons, List.map_nil, List.sum_singleton]

theorem startOf_mono (programs : List Bytecode) : Monotone (startOf programs) := by
  apply monotone_nat_of_le_succ
  intro index
  by_cases inside : index < programs.length
  · rw [startOf_succ inside]
    exact Nat.le_add_right _ _
  · have behind := Nat.le_of_not_lt inside
    rw [startOf, startOf, List.take_of_length_le behind, List.take_of_length_le (by omega)]

/-- Where no program is empty, each starts behind those in front of it. -/
theorem startOf_lt_startOf (filled : ∀ program ∈ programs, 0 < program.size) {later : Nat}
    (before : index < later) (inside : later ≤ programs.length) :
    startOf programs index < startOf programs later := by
  have present : index < programs.length := by omega
  calc startOf programs index
      < startOf programs index + programs[index].size :=
        Nat.lt_add_of_pos_right (filled _ (List.getElem_mem present))
    _ = startOf programs (index + 1) := (startOf_succ present).symm
    _ ≤ startOf programs later := startOf_mono programs before

theorem Reachable.of_append {more : List Bytecode} (reachable : Reachable (programs ++ more)) :
    Reachable programs := by
  intro index inside
  rw [← startOf_append_of_le inside.le more]
  exact reachable index (by simp; omega)

theorem reachable_concat_iff :
    Reachable (programs ++ [program]) ↔
      Reachable programs ∧ startOf programs programs.length ≤ 65535 := by
  constructor
  · intro reachable
    refine ⟨reachable.of_append, ?_⟩
    rw [← startOf_append_of_le le_rfl [program]]
    exact reachable programs.length (by simp)
  · rintro ⟨reachable, last⟩ index inside
    have within : index ≤ programs.length := by simpa [Nat.lt_succ_iff] using inside
    rw [startOf_append_of_le within]
    obtain earlier | rfl := within.lt_or_eq
    · exact reachable index earlier
    · exact last

theorem Holds.size_eq (holds : song.Holds programs) :
    song.bytecode.size = startOf programs programs.length := by
  rw [← Array.length_toList, holds.bytes, startOf, List.take_length, List.length_flatMap]
  simp

/-! ## One program more -/

theorem holds_nil : ({} : Song).Holds [] :=
  ⟨rfl, rfl⟩

theorem Holds.withTrack (holds : song.Holds programs)
    (reachable : startOf programs programs.length ≤ 65535) (program : Bytecode) :
    ∃ next, song.withTrack program = .ok next ∧ next.Holds (programs ++ [program]) := by
  have fits : song.bytecode.size < 65536 := by
    rw [holds.size_eq]
    omega
  refine ⟨_, by rw [Song.withTrack, if_pos fits], ?_, ?_⟩
  · simp [holds.bytes]
  · have kept : (List.range programs.length).map (startOf (programs ++ [program])) =
        song.bases.map UInt16.toNat := by
      rw [holds.bases]
      refine List.map_congr_left fun index member => ?_
      exact startOf_append_of_le (List.mem_range.mp member).le _
    rw [List.map_append, List.length_append, List.length_singleton, List.range_succ,
      List.map_append, kept]
    simp [startOf_append_of_le le_rfl, holds.size_eq,
      Nat.mod_eq_of_lt (Nat.lt_succ_of_le reachable)]

theorem Holds.refuses (holds : song.Holds programs)
    (beyond : 65535 < startOf programs programs.length) (program : Bytecode) :
    song.withTrack program = .error (.startsTooFar (startOf programs programs.length)) := by
  have tooFar : ¬song.bytecode.size < 65536 := by
    rw [holds.size_eq]
    omega
  rw [Song.withTrack, if_neg tooFar, holds.size_eq]

/-! ## The order of the bases -/

theorem Holds.pairwise_bases {related : UInt16 → UInt16 → Prop} (holds : song.Holds programs)
    (ordered : ∀ base base' : UInt16, ∀ index later, index < later → later < programs.length →
      base.toNat = startOf programs index → base'.toNat = startOf programs later →
        related base base') : song.bases.Pairwise related := by
  rw [List.pairwise_iff_getElem]
  intro index later inside inside' before
  have length : song.bases.length = programs.length := by
    simpa using congrArg List.length holds.bases
  have placed : ∀ index (inside : index < song.bases.length),
      song.bases[index].toNat = startOf programs index := by
    intro index inside
    have at' := congrArg (·[index]?) holds.bases
    simpa [inside, length ▸ inside] using at'
  exact ordered _ _ index later before (length ▸ inside') (placed _ _) (placed _ _)

theorem Holds.pairwise_le (holds : song.Holds programs) : song.bases.Pairwise (· ≤ ·) := by
  refine holds.pairwise_bases fun base base' index later before _ start start' => ?_
  rw [UInt16.le_iff_toNat_le, start, start']
  exact startOf_mono programs before.le

theorem Holds.pairwise_lt (holds : song.Holds programs)
    (filled : ∀ program ∈ programs, 0 < program.size) : song.bases.Pairwise (· < ·) := by
  refine holds.pairwise_bases fun base base' index later before inside start start' => ?_
  rw [UInt16.lt_iff_toNat_lt, start, start']
  exact startOf_lt_startOf filled before inside.le

end Starts

/-! ## Any number of programs -/

section Packing

variable {ι : Type} (make : ι → Except SongError Bytecode)

/-- Packs what is made of items, one after the other. -/
def packing (items : List ι) : Except SongError Song :=
  items.foldlM (fun song item => make item >>= song.withTrack) {}

/-- Whether the programs are made of the items. -/
def Made : List ι → List Bytecode → Prop :=
  List.Forall₂ fun item program => make item = .ok program

/-- Whether the error is that of the first item that cannot be packed, because nothing is made of
it or because what is made of it would start where 16 bits do not reach. -/
inductive Refused (items : List ι) : SongError → Prop where
  | unmade {front back : List ι} {item : ι} {programs : List Bytecode} {error : SongError}
      (split : items = front ++ item :: back) (made : Made make front programs)
      (reachable : Reachable programs) (failed : make item = .error error) : Refused items error
  | beyond {front back : List ι} {item : ι} {programs : List Bytecode} {program : Bytecode}
      (split : items = front ++ item :: back) (made : Made make front programs)
      (reachable : Reachable programs) (succeeded : make item = .ok program)
      (tooFar : 65535 < startOf programs programs.length) :
      Refused items (.startsTooFar (startOf programs programs.length))

variable {make} {items front back : List ι} {item : ι} {programs : List Bytecode} {song : Song}
  {error : SongError}

theorem Made.split (made : Made make (front ++ item :: back) programs) :
    ∃ first program more, programs = first ++ program :: more ∧ Made make front first ∧
      make item = .ok program := by
  induction front generalizing programs with
  | nil =>
    obtain ⟨program, more, succeeded, -, rfl⟩ := List.forall₂_cons_left_iff.mp made
    exact ⟨[], program, more, rfl, .nil, succeeded⟩
  | cons other front ih =>
    obtain ⟨other', rest, head, tail, rfl⟩ := List.forall₂_cons_left_iff.mp made
    obtain ⟨first, program, more, rfl, made', succeeded⟩ := ih tail
    exact ⟨other' :: first, program, more, rfl, .cons head made', succeeded⟩

theorem Made.unique {others : List Bytecode} (made : Made make items programs)
    (made' : Made make items others) : programs = others := by
  refine List.right_unique_forall₂' ?_ made made'
  intro item program other same same'
  exact Except.ok.inj (same.symm.trans same')

theorem packing_concat (items : List ι) (item : ι) :
    packing make (items ++ [item]) =
      packing make items >>= fun song => make item >>= song.withTrack := by
  simp [packing]

/-- Behind an item that cannot be packed nothing is looked at. -/
theorem packing_of_error (packed : packing make front = .ok song)
    (failed : (make item >>= song.withTrack) = .error error) :
    packing make (front ++ item :: back) = .error error := by
  unfold packing at packed ⊢
  rw [List.foldlM_append, packed]
  simp only [bind, Except.bind, List.foldlM_cons] at failed ⊢
  rw [failed]

theorem Refused.append (refused : Refused make items error) (more : List ι) :
    Refused make (items ++ more) error := by
  cases refused with
  | unmade split made reachable failed =>
    exact .unmade (by rw [split, List.append_assoc, List.cons_append]) made reachable failed
  | beyond split made reachable succeeded tooFar =>
    exact .beyond (by rw [split, List.append_assoc, List.cons_append]) made reachable succeeded
      tooFar

/-- Items are not refused of which programs are made that all start where 16 bits reach. -/
theorem Refused.not_reachable (refused : Refused make items error)
    (made : Made make items programs) : ¬Reachable programs := by
  intro reachable
  cases refused with
  | unmade split _ _ failed =>
    subst split
    obtain ⟨_, _, _, -, -, succeeded⟩ := made.split
    rw [failed] at succeeded
    cases succeeded
  | beyond split front _ _ tooFar =>
    subst split
    obtain ⟨_, program, more, rfl, front', -⟩ := made.split
    obtain rfl := front.unique front'
    rw [List.append_cons] at reachable
    have last := (reachable_concat_iff.mp reachable.of_append).2
    omega

variable (make) in
/-- Either a song comes to hold the programs of all items, or one of the items is refused. -/
theorem holds_or_refused (items : List ι) :
    (∃ programs song, Made make items programs ∧ Reachable programs ∧
      packing make items = .ok song ∧ song.Holds programs) ∨ ∃ error, Refused make items error := by
  induction items using List.reverseRecOn with
  | nil => exact .inl ⟨[], {}, .nil, by simp [Reachable], rfl, holds_nil⟩
  | append_singleton items item ih =>
    obtain ⟨programs, song, made, reachable, packed, holds⟩ | ⟨error, refused⟩ := ih
    · cases found : make item with
      | error error => exact .inr ⟨error, .unmade rfl made reachable found⟩
      | ok program =>
        by_cases within : startOf programs programs.length ≤ 65535
        · obtain ⟨next, appended, holds'⟩ := holds.withTrack within program
          refine .inl ⟨_, next, List.rel_append made (.cons found .nil),
            reachable_concat_iff.mpr ⟨reachable, within⟩, ?_, holds'⟩
          rw [packing_concat, packed, found]
          exact appended
        · exact .inr ⟨_, .beyond rfl made reachable found (by omega)⟩
    · exact .inr ⟨error, refused.append [item]⟩

theorem exists_holds (made : Made make items programs) (reachable : Reachable programs) :
    ∃ song, packing make items = .ok song ∧ song.Holds programs := by
  obtain ⟨programs', song, made', -, packed, holds⟩ | ⟨error, refused⟩ :=
    holds_or_refused make items
  · rw [made.unique made']
    exact ⟨song, packed, holds⟩
  · exact absurd reachable (refused.not_reachable made)

theorem Refused.packing_eq (refused : Refused make items error) :
    packing make items = .error error := by
  cases refused with
  | unmade split made reachable failed =>
    obtain ⟨song, packed, holds⟩ := exists_holds made reachable
    rw [split]
    refine packing_of_error packed ?_
    rw [failed]
    rfl
  | @beyond _ _ _ _ program split made reachable succeeded tooFar =>
    obtain ⟨song, packed, holds⟩ := exists_holds made reachable
    rw [split]
    refine packing_of_error packed ?_
    rw [succeeded]
    exact holds.refuses tooFar program

end Packing

/-! ## Songs -/

/-- The program of a script. -/
def programOf (source : String) : Except SongError Bytecode :=
  (compileSource source).mapError (.rejected source)

theorem compile_eq_packing (sources : List String) :
    Song.compile sources = packing programOf sources := by
  have same : withScript = fun song source => programOf source >>= song.withTrack := by
    funext song source
    unfold withScript programOf
    cases compileSource source <;> rfl
  rw [Song.compile, packing, same]

theorem ofTracks_eq_packing (programs : List Bytecode) :
    Song.ofTracks programs = packing .ok programs :=
  rfl

/-- A compiled program is not empty, since there is a `halt` at its end. -/
theorem size_pos_of_programOf {source : String} {program : Bytecode}
    (compiled : programOf source = .ok program) : 0 < program.size := by
  unfold programOf compileSource at compiled
  split at compiled
  · cases compiled
  · split at compiled
    · cases compiled
    · next accepted =>
      obtain rfl := Except.ok.inj compiled
      rw [← Array.length_toList, (Script.compile_eq_ok_iff.mp accepted).bytes]
      simp

/-- What comes of packing the programs made of items, whose bases are in the given order. -/
structure PacksInOrder {ι : Type} (make : ι → Except SongError Bytecode)
    (pack : List ι → Except SongError Song) (ordered : UInt16 → UInt16 → Prop) : Prop where
  succeeds_iff : ∀ items, (∃ song, pack items = .ok song) ↔
    ∃ programs, Made make items programs ∧ Reachable programs
  layout : ∀ items song, pack items = .ok song →
    ∃ programs, Made make items programs ∧ song.Holds programs ∧ song.bases.Pairwise ordered
  fails_iff : ∀ items error, pack items = .error error ↔ Refused make items error

theorem packsInOrder_packing {ι : Type} {make : ι → Except SongError Bytecode}
    {ordered : UInt16 → UInt16 → Prop}
    (order : ∀ items programs (song : Song), Made make items programs → song.Holds programs →
      song.bases.Pairwise ordered) : PacksInOrder make (packing make) ordered where
  succeeds_iff items := by
    constructor
    · rintro ⟨song, packed⟩
      obtain ⟨programs, _, made, reachable, -⟩ | ⟨error, refused⟩ := holds_or_refused _ items
      · exact ⟨programs, made, reachable⟩
      · rw [refused.packing_eq] at packed
        cases packed
    · rintro ⟨programs, made, reachable⟩
      obtain ⟨song, packed, -⟩ := exists_holds made reachable
      exact ⟨song, packed⟩
  layout items song packed := by
    obtain ⟨programs, _, made, -, packed', holds⟩ | ⟨error, refused⟩ := holds_or_refused _ items
    · obtain rfl := Except.ok.inj (packed.symm.trans packed')
      exact ⟨programs, made, holds, order items programs song made holds⟩
    · rw [refused.packing_eq] at packed
      cases packed
  fails_iff items error := by
    refine ⟨fun failed => ?_, Refused.packing_eq⟩
    obtain ⟨_, _, -, -, packed, -⟩ | ⟨error', refused⟩ := holds_or_refused _ items
    · rw [packed] at failed
      cases failed
    · obtain rfl := Except.error.inj (refused.packing_eq.symm.trans failed)
      exact refused

/-- Scripts make a song just if all of them compile and start where 16 bits reach, and so do
programs.  The song is the programs one behind the other, with the exact start of each as its base;
scripts start one behind the other, programs may start where an empty one does.  Otherwise the
error is that of the first that cannot be packed. -/
theorem packs_in_order :
    PacksInOrder programOf Song.compile (· < ·) ∧ PacksInOrder .ok Song.ofTracks (· ≤ ·) := by
  constructor
  · rw [show Song.compile = packing programOf from funext compile_eq_packing]
    refine packsInOrder_packing fun sources programs song made holds => ?_
    refine holds.pairwise_lt fun program member => ?_
    obtain ⟨source, -, compiled⟩ := Script.exists_of_mem_of_forall₂ made member
    exact size_pos_of_programOf compiled
  · rw [show Song.ofTracks = packing .ok from funext ofTracks_eq_packing]
    exact packsInOrder_packing fun _ _ _ _ holds => holds.pairwise_le

end Sequencer.Song
