import Sequencer.Proofs.Generator.Plans
import Sequencer.Proofs.Script.Boundaries
import Sequencer.Proofs.Track.Phases

/-!
# Generated scripts keep going

A figure that jumps over its note takes no time.  A riff of nothing else that goes back to its
start is a phase without an end, which the limit of a track cuts off.  Any other generated
script comes to the end of each of its phases.

* `Figure.Silent` — the figures that jump over their note.
* `Plan.Stands`, `Plan.Runs` — where the phrases of a plan stand in its code, and what a track
  fetches there.
* `Plan.Stands.silent`, `Plan.Stands.loud` — a figure is passed in silence, or ends the phase.
* `Plan.Stands.lap` — a riff of silent figures is passed over and over.
* `Phrase.Leads`, `Plan.homing`, `Plan.endsFromHome` — any other script gets home, and from
  there to the end of the phase.
* `phases_complete_or_cut_off` — both kinds of generated scripts.
-/

namespace Sequencer.Generator

open TrackState (next)

/-- Whether a figure raises nothing and takes no time: it jumps over its note. -/
def Figure.Silent : Figure → Prop
  | leap _ => True
  | leapUnless value limit => value ≤ limit
  | _ => False

instance : DecidablePred Figure.Silent
  | .leap _ => inferInstanceAs (Decidable True)
  | .leapUnless value limit => inferInstanceAs (Decidable (value ≤ limit))
  | .playNote | .rawNote | .pause _ | .longPause _ | .playRegister | .selectRegister _
  | .climb _ _ | .countdown _ | .external _ | .rate _ | .idle | .resetNote =>
    inferInstanceAs (Decidable False)

/-! ## Where phrases stand -/

namespace Plan

variable (plan : Plan)

def labels : Script.Labels :=
  Script.labelsOf plan.script

/-- The instructions that phrases of the script are decoded as. -/
def decoded (phrases : List Phrase) : List Instruction :=
  phrases.flatMap (Phrase.instructions plan.labels)

/-- Whether the rest of the script stands at an offset. -/
def Stands (rest : List Phrase) (offset : Nat) : Prop :=
  ∃ before, plan.phrases = before ++ rest ∧ offset = (bytesOf (plan.decoded before)).length

/-- A program with the instructions of the plan, read by a fetch function that finds zeros behind
it. -/
structure Runs (program : Program) (fetch : UInt16 → Instruction) : Prop where
  body : program.body = plan.decoded plan.phrases
  placed : program.Placed fetch
  behind : ∀ cursor : UInt16, program.size ≤ cursor.toNat → fetch cursor = .nop

variable {plan} {program : Program} {fetch : UInt16 → Instruction}
  {state : TrackState} {phrase : Phrase} {instruction : Instruction} {rest after : List Phrase}
  {offset : Nat}

theorem decoded_append (first second : List Phrase) :
    plan.decoded (first ++ second) = plan.decoded first ++ plan.decoded second :=
  List.flatMap_append

theorem instructionsOf_phrases (part : ∀ phrase ∈ rest, phrase ∈ plan.phrases) :
    Script.instructionsOf plan.labels (rest.map Phrase.statement) = plan.decoded rest :=
  instructionsOf_map_statement (fun phrase member => plan.sound_phrases phrase (part phrase member))
    fun _ => Script.isSome_lookup_labelsOf_iff.mpr

theorem length_bytesOf_decoded (split : plan.phrases = rest ++ after) :
    (bytesOf (plan.decoded rest)).length = Script.extent (rest.map Phrase.statement) := by
  have part : ∀ phrase ∈ rest, phrase ∈ plan.phrases := by
    rw [split]
    exact fun _ => List.mem_append_left after
  have script : plan.script = rest.map Phrase.statement ++ after.map Phrase.statement := by
    rw [Plan.script, split, List.map_append]
  obtain ⟨code, accepted, -⟩ := Generator.exists_accepted plan.nodup_definedNames plan.sound_phrases
  rw [← instructionsOf_phrases part, Script.bytesOf_instructionsOf]
  exact Script.length_emitted fun call member =>
    accepted.made call (Script.calls_subset_of_append script member)

theorem Stands.onward (stands : plan.Stands (phrase :: rest) offset)
    (single : phrase.instructions plan.labels = [instruction]) :
    plan.Stands rest (offset + instruction.size) := by
  obtain ⟨before, split, rfl⟩ := stands
  refine ⟨before ++ [phrase], by simp [split], ?_⟩
  rw [decoded_append, bytesOf_append, List.length_append]
  simp [decoded, single, bytesOf]

/-- A definition takes no byte. -/
theorem Stands.behind {name : String} (stands : plan.Stands (.define name :: rest) offset) :
    plan.Stands rest offset := by
  obtain ⟨before, split, rfl⟩ := stands
  refine ⟨before ++ [.define name], by simp [split], ?_⟩
  simp [decoded, Phrase.instructions]

/-- A label stands for where its definition stands. -/
theorem Stands.lookup {name : String} (stands : plan.Stands (.define name :: rest) offset) :
    plan.labels.lookup name = some offset := by
  obtain ⟨before, split, rfl⟩ := stands
  have script : plan.script = before.map Phrase.statement ++
      .label name default :: rest.map Phrase.statement := by
    rw [Plan.script, split, List.map_append]
    rfl
  rw [labels, Script.lookup_labelsOf plan.nodup_definedNames script, length_bytesOf_decoded split]

theorem Stands.exists_behind {part : List Phrase} (stands : plan.Stands (part ++ rest) offset) :
    ∃ offset', offset ≤ offset' ∧ plan.Stands rest offset' := by
  obtain ⟨before, split, rfl⟩ := stands
  refine ⟨_, ?_, before ++ part, by simp [split], rfl⟩
  rw [decoded_append, bytesOf_append, List.length_append]
  exact Nat.le_add_right _ _

section Runs

variable (runs : plan.Runs program fetch) (arithmetic : Arithmetic)
include runs

theorem Stands.starts (stands : plan.Stands (phrase :: rest) offset)
    (single : phrase.instructions plan.labels = [instruction]) :
    Starts program.instructions offset instruction := by
  obtain ⟨before, split, rfl⟩ := stands
  refine ⟨plan.decoded before, plan.decoded rest ++ [.halt], ?_, rfl⟩
  rw [Routine.instructions, runs.body, split, decoded_append]
  simp [decoded, single]

theorem Stands.fetched (stands : plan.Stands (phrase :: rest) state.cursor.toNat)
    (single : phrase.instructions plan.labels = [instruction]) :
    fetch state.cursor = instruction :=
  runs.placed.start _ _ (stands.starts runs single)

theorem Stands.lt_size (stands : plan.Stands rest offset) : offset < program.size := by
  obtain ⟨before, split, rfl⟩ := stands
  have last : 0 < (bytesOf [Instruction.halt]).length := by decide
  rw [Routine.size, Routine.instructions, runs.body, split, decoded_append, bytesOf_append,
    bytesOf_append, List.length_append, List.length_append]
  omega

/-- A phrase that moves the cursor over its own bytes is followed by the next one. -/
theorem Stands.moved (stands : plan.Stands (phrase :: rest) state.cursor.toNat)
    (single : phrase.instructions plan.labels = [instruction])
    (moves : (state.execute arithmetic instruction).1.cursor =
      state.cursor + UInt16.ofNat instruction.size) :
    plan.Stands rest (next arithmetic fetch state).cursor.toNat := by
  have fits := Routine.end_le_size (stands.starts runs single)
  rw [TrackState.next, stands.fetched runs single, moves, Routine.toNat_add_of_le fits]
  exact stands.onward single

/-- The target of a jump is where its label is defined. -/
theorem Stands.target {name : String} (there : plan.Stands (.define name :: rest) offset) :
    (UInt16.ofNat ((Term.label name).operand plan.labels)).toNat = offset := by
  have small := there.lt_size runs
  have short := program.size_lt
  rw [Term.operand, there.lookup, Option.getD_some, UInt16.toNat_ofNat',
    Nat.mod_eq_of_lt (by omega)]

theorem Stands.jumped {condition : Condition} {name : String}
    (stands : plan.Stands (.apply (.jump condition) (.label name) :: rest) state.cursor.toNat)
    (there : plan.Stands (.define name :: after) offset)
    (taken : condition.holds state.flag = true) :
    (next arithmetic fetch state).cursor.toNat = offset := by
  rw [TrackState.next, stands.fetched runs rfl, Instruction.ofOpcode, TrackState.cursor_execute]
  simp only [taken, if_true]
  exact there.target runs

/-- A comparison with a number that has just been set goes by the two numbers. -/
theorem Stands.compared {value limit : Fin 8} {relation : Comparison}
    (stands : plan.Stands (.number .set value :: .number (.compare relation) limit :: rest)
      state.cursor.toNat) :
    state.Quiet arithmetic fetch 2 ∧
      plan.Stands rest ((next arithmetic fetch)^[2] state).cursor.toNat ∧
      ((next arithmetic fetch)^[2] state).flag = relation.holds value limit ∧
      ((next arithmetic fetch)^[2] state).sectionAnchor = state.sectionAnchor := by
  have first := stands.fetched runs rfl
  have stands' := stands.moved runs arithmetic rfl rfl
  have second := stands'.fetched runs rfl
  -- numbers this small are the same in an operand and in the register
  have numbers : ∀ n : Fin 8, (Int32.ofNat (UInt8.ofNat n).toNat).toInt = n ∧
      ((UInt8.ofNat n).toNat : Int) = n := by
    decide
  refine ⟨?_, stands'.moved runs arithmetic rfl rfl, ?_, ?_⟩
  · refine TrackState.quiet_succ_iff.mpr ⟨by rw [first]; rfl, ?_⟩
    exact TrackState.quiet_succ_iff.mpr ⟨by rw [second]; rfl, TrackState.quiet_zero⟩
  · show (next arithmetic fetch (next arithmetic fetch state)).flag = _
    rw [TrackState.next, second, TrackState.next, first]
    show relation.holds (Int32.ofNat (UInt8.ofNat value).toNat).toInt (UInt8.ofNat limit).toNat = _
    rw [(numbers value).1, (numbers limit).2]
  · show (next arithmetic fetch (next arithmetic fetch state)).sectionAnchor = _
    rw [TrackState.next, second, TrackState.next, first]
    rfl

/-- A jump that such a comparison decides leads over what lies in front of its label. -/
theorem Stands.leapt {value limit : Fin 8} {relation : Comparison} {condition : Condition}
    {name : String} (between : List Phrase)
    (stands : plan.Stands (.number .set value :: .number (.compare relation) limit ::
      .apply (.jump condition) (.label name) :: (between ++ .define name :: rest))
        state.cursor.toNat)
    (taken : condition.holds (relation.holds value limit) = true) :
    state.Quiet arithmetic fetch 3 ∧
      plan.Stands rest ((next arithmetic fetch)^[3] state).cursor.toNat ∧
      ((next arithmetic fetch)^[3] state).sectionAnchor = state.sectionAnchor := by
  obtain ⟨quiet, reached, flag, anchor⟩ := stands.compared runs arithmetic
  have fetched := reached.fetched runs rfl
  have passed : ((next arithmetic fetch)^[2] state).Quiet arithmetic fetch 1 :=
    TrackState.quiet_succ_iff.mpr ⟨by rw [fetched]; rfl, TrackState.quiet_zero⟩
  obtain ⟨offset, -, there⟩ := (reached.onward rfl).exists_behind
  refine ⟨TrackState.quiet_add_iff.mpr ⟨quiet, passed⟩, ?_, ?_⟩
  · rw [Function.iterate_succ_apply', reached.jumped runs arithmetic there (flag ▸ taken)]
    exact there.behind
  · rw [Function.iterate_succ_apply', TrackState.next, fetched, TrackState.sectionAnchor_execute]
    exact anchor

/-- If it is not taken, the high byte of its target comes next, which ends the phase. -/
theorem Stands.ends_leap {value limit : Fin 8} {relation : Comparison} {condition : Condition}
    {name : String}
    (stands : plan.Stands (.number .set value :: .number (.compare relation) limit ::
      .apply (.jump condition) (.label name) :: rest) state.cursor.toNat)
    (skipped : condition.holds (relation.holds value limit) = false) :
    state.EndsWithin arithmetic fetch 4 := by
  obtain ⟨quiet, reached, flag, -⟩ := stands.compared runs arithmetic
  have starts : Starts program.instructions _ (.jump condition _) := reached.starts runs rfl
  have fits := Routine.end_le_size starts
  have moved : (next arithmetic fetch ((next arithmetic fetch)^[2] state)).cursor.toNat =
      ((next arithmetic fetch)^[2] state).cursor.toNat + 2 := by
    rw [TrackState.next, reached.fetched runs rfl, Instruction.ofOpcode, TrackState.cursor_execute]
    simp only [flag, skipped]
    exact Routine.toNat_add_of_le (Nat.le_trans (Nat.le_succ _) fits)
  have ends : ((next arithmetic fetch)^[2] state).EndsWithin arithmetic fetch 2 := by
    refine .of_next (TrackState.endsWithin_of_endsTick ?_)
    -- the code is short, so the high byte is a zero
    rw [runs.placed.high _ _ _ _ moved starts]
    rfl
  exact .of_quiet quiet ends

/-- A silent figure is over after three instructions. -/
theorem Stands.silent {figure : Figure} {note number : Nat} (silent : figure.Silent)
    (stands : plan.Stands (figure.phrases note number ++ rest) state.cursor.toNat) :
    state.Quiet arithmetic fetch 3 ∧
      plan.Stands rest ((next arithmetic fetch)^[3] state).cursor.toNat ∧
      ((next arithmetic fetch)^[3] state).sectionAnchor = state.sectionAnchor := by
  cases figure with
  | leap value =>
    have taken : Condition.holds (Comparison.holds value value .equal) .ifSet = true := by
      simp [Condition.holds, Comparison.holds]
    exact Stands.leapt runs arithmetic [.number .play note] stands taken
  | leapUnless value limit =>
    have taken : Condition.holds (Comparison.holds value limit .greater) .ifClear = true := by
      have le : value.val ≤ limit.val := silent
      simp [Condition.holds, Comparison.holds]
      omega
    exact Stands.leapt runs arithmetic [.number (.compare .atLeast) 0, .number .play note]
      stands taken
  | _ => exact silent.elim

theorem Stands.ends_here {limit : Nat}
    (stands : plan.Stands (phrase :: rest) state.cursor.toNat)
    (single : phrase.instructions plan.labels = [instruction])
    (ends : instruction.endsTick = true) :
    state.EndsWithin arithmetic fetch (limit + 1) :=
  TrackState.endsWithin_of_endsTick (by rw [stands.fetched runs single, ends])

/-- Any other figure ends the phase before it is over. -/
theorem Stands.loud {figure : Figure} {note number : Nat} (loud : ¬figure.Silent)
    (stands : plan.Stands (figure.phrases note number ++ rest) state.cursor.toNat) :
    state.EndsWithin arithmetic fetch 4 := by
  cases figure with
  | leap value => exact absurd trivial loud
  | leapUnless value limit =>
    have greater : ¬value.val ≤ limit.val := loud
    refine Stands.ends_leap runs arithmetic stands ?_
    simp [Condition.holds, Comparison.holds]
    omega
  | playRegister | selectRegister _ =>
    exact .of_next ((stands.moved runs arithmetic rfl rfl).ends_here runs arithmetic rfl rfl)
  | climb _ _ | countdown _ =>
    have second := stands.moved runs arithmetic rfl rfl
    have third := second.moved runs arithmetic rfl rfl
    have fourth := third.moved runs arithmetic rfl rfl
    exact .of_next (.of_next (.of_next (fourth.ends_here runs arithmetic rfl rfl)))
  | rawNote =>
    refine stands.ends_here runs arithmetic rfl ?_
    obtain silent | sounding := Instruction.ofDataByte_cases (UInt8.ofNat note)
    · rw [silent]
      rfl
    · rw [sounding]
      rfl
  | _ => exact stands.ends_here runs arithmetic rfl rfl

end Runs

/-! ## The riff -/

section Riff

variable (plan)

/-- The phrases of steps. -/
def played (steps : List (Step × Nat)) : List Phrase :=
  steps.flatMap fun (step, number) => step.figure.phrases (plan.note step) number

/-- What stands in front of the riff. -/
def opening : List Phrase :=
  [.number .instrument plan.instrument, .number .ticks plan.rate, .define plan.riffLabel]

/-- What stands behind the section of the riff. -/
def riffPhrases : List Phrase :=
  plan.played plan.steps.zipIdx ++ [plan.last]

theorem phrases_eq_opening :
    plan.phrases = plan.opening ++ .plain .markSection :: plan.riffPhrases := by
  simp [phrases_eq, opening, riffPhrases, played]

theorem exists_stands_riff : ∃ offset,
    plan.Stands (.define plan.riffLabel :: .plain .markSection :: plan.riffPhrases) offset :=
  ⟨_, [.number .instrument plan.instrument, .number .ticks plan.rate],
    by rw [phrases_eq_opening]; rfl, rfl⟩

/-- Whether a phase of the riff comes to its end. -/
def Lively : Prop :=
  (∃ step ∈ plan.steps, ¬step.figure.Silent) ∨ plan.ending = .stop

theorem lively_iff : plan.Lively ↔
    (∃ step ∈ plan.steps.zipIdx, ¬step.1.figure.Silent) ∨ plan.ending = .stop := by
  have members : ∀ step, step ∈ plan.steps ↔ ∃ number, (step, number) ∈ plan.steps.zipIdx := by
    intro step
    conv_lhs => rw [← List.zipIdx_map_fst 0 plan.steps, List.mem_map]
    exact ⟨fun ⟨entry, member, same⟩ => ⟨entry.2, same ▸ member⟩,
      fun ⟨number, member⟩ => ⟨_, member, rfl⟩⟩
  simp only [Lively, members, Prod.exists]
  grind

variable {plan} (runs : plan.Runs program fetch) (arithmetic : Arithmetic)
include runs

/-- Silent steps are passed one after the other. -/
theorem Stands.silent_steps {steps : List (Step × Nat)}
    (silent : ∀ step ∈ steps, step.1.figure.Silent)
    (stands : plan.Stands (plan.played steps ++ rest) state.cursor.toNat) :
    state.Quiet arithmetic fetch (3 * steps.length) ∧
      plan.Stands rest ((next arithmetic fetch)^[3 * steps.length] state).cursor.toNat ∧
      ((next arithmetic fetch)^[3 * steps.length] state).sectionAnchor = state.sectionAnchor := by
  induction steps generalizing state with
  | nil => exact ⟨TrackState.quiet_zero, stands, rfl⟩
  | cons step steps ih =>
    obtain ⟨first, others⟩ := List.forall_mem_cons.mp silent
    rw [played, List.flatMap_cons, List.append_assoc] at stands
    obtain ⟨quiet, reached, anchor⟩ := Stands.silent runs arithmetic first stands
    obtain ⟨quiet', reached', anchor'⟩ := ih others reached
    rw [List.length_cons, Nat.mul_succ, Function.iterate_add_apply]
    refine ⟨?_, reached', anchor'.trans anchor⟩
    rw [Nat.add_comm]
    exact TrackState.quiet_add_iff.mpr ⟨quiet, quiet'⟩

/-- Behind the script come two zeros at most before the phase ends. -/
theorem Stands.ends_nil (stands : plan.Stands [] state.cursor.toNat) :
    state.EndsWithin arithmetic fetch 2 := by
  obtain ⟨before, split, place⟩ := stands
  rw [List.append_nil] at split
  have starts : Starts program.instructions state.cursor.toNat .halt :=
    ⟨program.body, [], rfl, by rw [place, runs.body, split]⟩
  have size : program.size = state.cursor.toNat + 1 := by
    rw [Routine.size, Routine.instructions, runs.body, split, place, bytesOf_append,
      List.length_append]
    rfl
  refine .of_next (TrackState.endsWithin_of_endsTick ?_)
  rw [runs.behind]
  · rfl
  · rw [TrackState.next, runs.placed.start _ _ starts, TrackState.cursor_execute]
    show program.size ≤ (state.cursor + UInt16.ofNat Instruction.halt.size).toNat
    rw [Routine.toNat_add_of_le (Routine.end_le_size starts)]
    exact Nat.le_of_eq size

/-- From the start of the riff a phase meets a figure that ends it, or the end of the script. -/
theorem Stands.ends_riff {steps : List (Step × Nat)}
    (lively : (∃ step ∈ steps, ¬step.1.figure.Silent) ∨ plan.ending = .stop)
    (stands : plan.Stands (plan.played steps ++ [plan.last]) state.cursor.toNat) :
    state.EndsWithin arithmetic fetch (3 * steps.length + 4) := by
  -- on the steps still ahead: silent ones are passed, and one that is not ends the phase
  induction steps generalizing state with
  | nil =>
    obtain ⟨step, impossible, -⟩ | stop := lively
    · cases impossible
    · have last : plan.last = .plain .halt := by rw [Plan.last, stop]
      have halt : plan.Stands [.plain .halt] state.cursor.toNat := by
        simpa [played, last] using stands
      have ends := (halt.moved runs arithmetic rfl rfl).ends_nil runs arithmetic
      exact (TrackState.EndsWithin.of_next ends).mono (by omega)
  | cons step steps ih =>
    rw [played, List.flatMap_cons, List.append_assoc] at stands
    by_cases silent : step.1.figure.Silent
    · obtain ⟨quiet, reached, -⟩ := Stands.silent runs arithmetic silent stands
      have later : (∃ step ∈ steps, ¬step.1.figure.Silent) ∨ plan.ending = .stop := by
        rw [List.exists_mem_cons_iff] at lively
        exact lively.imp_left fun loud => loud.resolve_left (not_not_intro silent)
      exact (TrackState.EndsWithin.of_quiet quiet (ih later reached)).mono (by simp; omega)
    · exact (Stands.loud runs arithmetic silent stands).mono (by omega)

/-- The section of the riff is followed by all of it. -/
theorem Stands.ends_section (few : plan.steps.length ≤ 11) (lively : plan.Lively)
    (stands : plan.Stands (.plain .markSection :: plan.riffPhrases) state.cursor.toNat) :
    state.EndsWithin arithmetic fetch 38 := by
  have start := stands.moved runs arithmetic rfl rfl
  have ends := Stands.ends_riff runs arithmetic (plan.lively_iff.mp lively) start
  rw [List.length_zipIdx] at ends
  exact (TrackState.EndsWithin.of_next ends).mono (by omega)

/-- The last phrase of a script that does not stop leads back to the section of the riff, be it
through its label or as the last section there was. -/
theorem Stands.led_back (going : plan.ending ≠ .stop)
    (stands : plan.Stands [plan.last] state.cursor.toNat)
    (there : plan.Stands (.plain .markSection :: plan.riffPhrases) state.sectionAnchor.toNat) :
    state.Quiet arithmetic fetch 1 ∧ plan.Stands (.plain .markSection :: plan.riffPhrases)
      (next arithmetic fetch state).cursor.toNat := by
  rw [TrackState.quiet_succ_iff]
  cases ending : plan.ending with
  | jumpBack =>
    have last : plan.last = .apply (.jump .always) (.label plan.riffLabel) := by
      rw [Plan.last, ending]
    rw [last] at stands
    obtain ⟨offset, label⟩ := plan.exists_stands_riff
    refine ⟨⟨by rw [stands.fetched runs rfl]; rfl, TrackState.quiet_zero⟩, ?_⟩
    rw [stands.jumped runs arithmetic label rfl]
    exact label.behind
  | repeatRiff =>
    have last : plan.last = .plain (.repeatSection .always) := by rw [Plan.last, ending]
    rw [last] at stands
    have fetched := stands.fetched runs rfl
    refine ⟨⟨by rw [fetched]; rfl, TrackState.quiet_zero⟩, ?_⟩
    rw [TrackState.next, fetched]
    exact there
  | stop => exact absurd ending going

/-- If all figures are silent and the script does not stop, the riff goes round without an end. -/
theorem Stands.lap (still : ¬plan.Lively)
    (stands : plan.Stands (.plain .markSection :: plan.riffPhrases) state.cursor.toNat) :
    ∃ count, 0 < count ∧ state.Quiet arithmetic fetch count ∧
      plan.Stands (.plain .markSection :: plan.riffPhrases)
        ((next arithmetic fetch)^[count] state).cursor.toNat := by
  rw [lively_iff, not_or] at still
  obtain ⟨silent, going⟩ := still
  push Not at silent
  have first := stands.fetched runs rfl
  have start := stands.moved runs arithmetic rfl rfl
  obtain ⟨quiet, reached, anchor⟩ := Stands.silent_steps runs arithmetic silent start
  generalize 3 * plan.steps.zipIdx.length = length at quiet reached anchor
  have whole : state.Quiet arithmetic fetch (length + 1) :=
    TrackState.quiet_succ_iff.mpr ⟨by rw [first]; rfl, quiet⟩
  have marked : ((next arithmetic fetch)^[length + 1] state).sectionAnchor = state.cursor := by
    rw [Function.iterate_succ_apply, anchor, TrackState.next, first,
      TrackState.sectionAnchor_execute]
    rfl
  obtain ⟨quiet', back⟩ := Stands.led_back runs arithmetic going reached (marked.symm ▸ stands)
  refine ⟨length + 1 + 1, by omega, TrackState.quiet_add_iff.mpr ⟨whole, quiet'⟩, ?_⟩
  rw [Function.iterate_succ_apply']
  exact back

end Riff

/-! ## What a phrase leads to -/

end Plan

/-- What has to come behind a phrase.  A section plays a note soon, and a jump leads forward, but
for those of the riff. -/
def Phrase.Leads (riff : String) (rest : List Phrase) : Phrase → Prop
  | .plain .markSection => ∃ opcode value second more,
      rest = .number opcode value :: second :: more ∧ (opcode = .add ∨ opcode = .sub) ∧
        (second = .plain .playSet ∨ ∃ note, second = .number .play note)
  | .apply (.jump _) (.label name) => name = riff ∨ .define name ∈ rest
  | _ => True

def Tidy (riff : String) : List Phrase → Prop
  | [] => True
  | phrase :: rest => phrase.Leads riff rest ∧ Tidy riff rest

theorem Phrase.Leads.append {riff : String} {rest : List Phrase} {phrase : Phrase}
    (leads : phrase.Leads riff rest) (more : List Phrase) : phrase.Leads riff (rest ++ more) := by
  unfold Leads at leads ⊢
  split at leads
  next =>
    obtain ⟨opcode, value, second, others, rfl, soon⟩ := leads
    exact ⟨opcode, value, second, others ++ more, rfl, soon⟩
  next => exact leads.imp_right (List.mem_append_left more)
  next => simp_all

theorem Tidy.append {riff : String} {first second : List Phrase} (tidy : Tidy riff first)
    (tidy' : Tidy riff second) : Tidy riff (first ++ second) := by
  induction first with
  | nil => exact tidy'
  | cons phrase first ih => exact ⟨tidy.1.append second, ih tidy.2⟩

theorem Tidy.leads {riff : String} {front rest : List Phrase} {phrase : Phrase}
    (tidy : Tidy riff (front ++ phrase :: rest)) : phrase.Leads riff rest := by
  induction front with
  | nil => exact tidy.1
  | cons other front ih => exact ih tidy.2

theorem Figure.tidy_phrases (riff : String) (figure : Figure) (note number : Nat) :
    Tidy riff (figure.phrases note number) := by
  cases figure <;> simp [phrases, Tidy, Phrase.Leads, Phrase.number]

namespace Plan

section Home

variable {plan : Plan} {program : Program} {fetch : UInt16 → Instruction}
  {phrase : Phrase} {instruction : Instruction} {rest : List Phrase} {offset : Nat}

theorem tidy_riffPhrases (plan : Plan) : Tidy plan.riffLabel plan.riffPhrases := by
  have steps : ∀ steps, Tidy plan.riffLabel (plan.played steps) := by
    intro steps
    induction steps with
    | nil => trivial
    | cons step steps ih => exact (step.1.figure.tidy_phrases _ _ _).append ih
  refine (steps _).append ⟨?_, trivial⟩
  rw [last]
  split
  · exact .inl rfl
  · trivial
  · trivial

/-- A phrase is one of the opening, or the section of the riff, or a part of the riff. -/
theorem Stands.position (stands : plan.Stands (phrase :: rest) offset) :
    phrase ∈ plan.opening ∨ (phrase = .plain .markSection ∧ rest = plan.riffPhrases) ∨
      phrase.Leads plan.riffLabel rest := by
  obtain ⟨before, split, -⟩ := stands
  rw [phrases_eq_opening, List.append_eq_append_iff] at split
  obtain ⟨front, rfl, split⟩ | ⟨front, split, rest'⟩ := split
  · cases front with
    | nil =>
      obtain ⟨rfl, rfl⟩ := List.cons.inj split
      exact .inr (.inl ⟨rfl, rfl⟩)
    | cons _ front =>
      obtain ⟨-, riff⟩ := List.cons.inj split
      have tidy := plan.tidy_riffPhrases
      rw [riff] at tidy
      exact .inr (.inr tidy.leads)
  · cases front with
    | nil =>
      obtain ⟨rfl, rfl⟩ := List.cons.inj rest'
      exact .inr (.inl ⟨rfl, rfl⟩)
    | cons _ front =>
      obtain ⟨rfl, -⟩ := List.cons.inj rest'
      exact .inl (by simp [split])

theorem Stands.sound (stands : plan.Stands (phrase :: rest) offset) :
    phrase.Sound (Script.definedNames plan.script) := by
  obtain ⟨before, split, -⟩ := stands
  exact plan.sound_phrases phrase (by simp [split])

/-- An element of a flattened list comes from one place, if each place gives one at most. -/
theorem exists_split_of_flatMap {α β : Type} {f : α → List β} (single : ∀ a, (f a).length ≤ 1)
    {places : List α} {before after : List β} {b : β}
    (split : places.flatMap f = before ++ b :: after) :
    ∃ front a back, places = front ++ a :: back ∧ f a = [b] ∧ before = front.flatMap f := by
  induction places generalizing before with
  | nil => simp at split
  | cons a places ih =>
    rw [List.flatMap_cons] at split
    have short := single a
    cases known : f a with
    | nil =>
      rw [known, List.nil_append] at split
      obtain ⟨front, a', back, rfl, found, rfl⟩ := ih split
      exact ⟨a :: front, a', back, rfl, found, by simp [known]⟩
    | cons c more =>
      rw [known] at short
      obtain rfl : more = [] := by simpa using short
      rw [known] at split
      cases before with
      | nil =>
        obtain ⟨rfl, -⟩ := List.cons.inj split
        exact ⟨[], a, places, rfl, known, rfl⟩
      | cons c' before =>
        obtain ⟨rfl, others⟩ := List.cons.inj split
        obtain ⟨front, a', back, rfl, found, rfl⟩ := ih others
        exact ⟨a :: front, a', back, rfl, found, by simp [known]⟩

/-- An instruction of the body is that of a phrase. -/
theorem exists_stands (runs : plan.Runs program fetch) (other : instruction ≠ .halt)
    (starts : Starts program.instructions offset instruction) :
    ∃ phrase rest, plan.Stands (phrase :: rest) offset ∧
      phrase.instructions plan.labels = [instruction] := by
  have inBody := (Script.starts_of_starts_halt starts).resolve_right fun last => other last.1
  obtain ⟨before, after, split, rfl⟩ := inBody
  have single : ∀ phrase : Phrase, (phrase.instructions plan.labels).length ≤ 1 := by
    intro phrase
    cases phrase <;> simp [Phrase.instructions]
  rw [runs.body] at split
  obtain ⟨front, phrase, back, phrases, own, rfl⟩ := exists_split_of_flatMap single split
  exact ⟨phrase, back, ⟨front, phrases, rfl⟩, own⟩

/-- Only a section is decoded as one. -/
theorem eq_markSection_of_sound {names : List String} {labels : Script.Labels}
    (sound : phrase.Sound names) (single : phrase.instructions labels = [.markSection]) :
    phrase = .plain .markSection := by
  have mark : ∀ {opcode narrow wide},
      [Instruction.ofOpcode opcode narrow wide] = [.markSection] → opcode = .markSection := by
    intro opcode narrow wide same
    cases opcode <;> first | rfl | cases same
  cases sound with
  | define | jump => cases single
  | @data value =>
    obtain silent | note := Instruction.ofDataByte_cases (UInt8.ofNat value) <;>
      simp [Phrase.instructions, *] at single
  | plain => rw [mark single]
  | number width =>
    obtain rfl := mark single
    exact absurd rfl width

/-- A jump is one to a label. -/
theorem exists_jump_of_sound {names : List String} {labels : Script.Labels} {condition : Condition}
    {target : UInt16} (sound : phrase.Sound names)
    (single : phrase.instructions labels = [.jump condition target]) :
    ∃ name, phrase = .apply (.jump condition) (.label name) ∧
      target = UInt16.ofNat ((Term.label name).operand labels) := by
  cases sound with
  | define => cases single
  | @data value =>
    obtain silent | note := Instruction.ofDataByte_cases (UInt8.ofNat value) <;>
      simp [Phrase.instructions, *] at single
  | plain width =>
    obtain ⟨rfl, -⟩ := Script.eq_jump_of_ofOpcode (List.singleton_inj.mp single).symm
    cases width
  | number width other =>
    obtain ⟨rfl, -⟩ := Script.eq_jump_of_ofOpcode (List.singleton_inj.mp single).symm
    exact absurd rfl (other condition)
  | @jump condition' name =>
    obtain ⟨same, rfl⟩ := Script.eq_jump_of_ofOpcode (List.singleton_inj.mp single).symm
    cases same
    exact ⟨name, rfl, rfl⟩

theorem homing (runs : plan.Runs program fetch) : program.Homing := by
  intro offset condition target starts
  obtain ⟨phrase, rest, stands, single⟩ := exists_stands runs (by simp) starts
  obtain ⟨name, rfl, rfl⟩ := exists_jump_of_sound stands.sound single
  obtain first | ⟨impossible, -⟩ | rfl | forward := stands.position
  · simp [opening, Phrase.number] at first
  · cases impossible
  · obtain ⟨_, there⟩ := plan.exists_stands_riff
    refine .inr (.inr ?_)
    rw [there.target runs]
    exact there.behind.starts runs rfl
  · obtain ⟨between, behind, rfl⟩ := List.append_of_mem forward
    obtain ⟨_, later, there⟩ := (stands.onward single).exists_behind
    refine .inl ?_
    rw [there.target runs]
    have nonempty := (Instruction.jump condition
      (UInt16.ofNat ((Term.label name).operand plan.labels))).size_pos
    omega

theorem endsFromHome (runs : plan.Runs program fetch) (arithmetic : Arithmetic)
    (few : plan.steps.length ≤ 11) (lively : plan.Lively) :
    program.EndsFromHome arithmetic fetch 38 := by
  intro state home _
  obtain start | starts := home
  · -- the instrument comes first and ends a phase by itself
    have stands : plan.Stands plan.phrases state.cursor.toNat := ⟨[], rfl, by rw [start]; rfl⟩
    rw [phrases_eq_opening] at stands
    exact stands.ends_here runs arithmetic rfl rfl
  · obtain ⟨phrase, rest, stands, single⟩ := exists_stands runs (by simp) starts
    obtain rfl := eq_markSection_of_sound stands.sound single
    obtain first | ⟨-, rfl⟩ | ⟨opcode, value, second, more, rfl, moves, soon⟩ := stands.position
    · simp [opening, Phrase.number] at first
    · exact stands.ends_section runs arithmetic few lively
    · -- the section of a figure is followed by a step of the register and by a note
      have stands := stands.moved runs arithmetic rfl rfl
      have ends : (next arithmetic fetch (next arithmetic fetch state)).EndsWithin arithmetic fetch
          36 := by
        obtain rfl | rfl := moves <;> obtain rfl | ⟨note, rfl⟩ := soon <;>
          exact (stands.moved runs arithmetic rfl rfl).ends_here runs arithmetic rfl rfl
      exact .of_next (.of_next ends)

end Home

/-! ## Tracks that play a plan -/

section Play

variable {plan : Plan} {program : Program} {code : Bytecode}

/-- The code of a plan is read as a program of its instructions. -/
theorem exists_runs (accepted : Script.Accepted plan.script code) (short : code.size ≤ 256) :
    ∃ program, plan.Runs program (Track.fetch {} code) ∧ program.size = code.size := by
  obtain ⟨program, body, bytes⟩ :=
    accepted.exists_program_body (tame_map_statement plan.sound_phrases) short
  have size : program.size = code.size := Routine.size_eq bytes
  have layout : code.toList = [] ++ (bytesOf program.instructions ++ []) := by simp [bytes]
  refine ⟨program, ⟨?_, program.placed_decode layout rfl, ?_⟩, size⟩
  · rw [body]
    exact instructionsOf_phrases fun _ => id
  · intro cursor past
    exact Bytecode.decode_of_size_le (by simpa [size] using past)

/-- The first two frames choose the instrument and the rate, and the third starts the riff. -/
theorem third_frame (runs : plan.Runs program (Track.fetch {} code)) :
    let state := (Track.after {} code 2).state
    state.halted = false ∧ state.tickCounter = 0 ∧ state.waitCounter = 0 ∧
      plan.Stands (.plain .markSection :: plan.riffPhrases) state.cursor.toNat := by
  have start : plan.Stands plan.phrases 0 := ⟨[], rfl, rfl⟩
  rw [phrases_eq_opening] at start
  have onward := start.onward rfl
  have first : Track.fetch {} code 0 = .instrument _ :=
    runs.placed.start 0 _ (start.starts runs rfl)
  have second : Track.fetch {} code 2 = .ticks _ :=
    runs.placed.start 2 _ (onward.starts runs rfl)
  have zero : (Track.after {} code 0).state = {} := rfl
  have one := Track.state_after_succ_of_endsTick (by decide) zero rfl rfl rfl first rfl
  have two := Track.state_after_succ_of_endsTick (by decide) one rfl rfl rfl second rfl
  rw [two]
  exact ⟨rfl, rfl, rfl, (onward.onward rfl).behind⟩

/-- Without a figure that ends a phase, or a stop, the third frame is cut off. -/
theorem cut_off_of_still (runs : plan.Runs program (Track.fetch {} code))
    (still : ¬plan.Lively) :
    (Track.executedAt {} code 2).length = 255 ∧
      ∀ instruction ∈ Track.executedAt {} code 2, instruction.endsTick = false := by
  obtain ⟨running, counted, resumed, stands⟩ := third_frame runs
  have quiet := TrackState.quiet_of_recurring (fun _ => Stands.lap runs .wrapping still)
    (show plan.Stands _ (Track.after {} code 2).state.ready.cursor.toNat from stands) 255
  have resting : ¬((Track.after {} code 2).state.halted = true ∨
      0 < (Track.after {} code 2).state.tickCounter ∨
      0 < (Track.after {} code 2).state.waitCounter) := by
    simp [running, counted, resumed]
  rw [Track.executedAt, TrackState.executed, if_neg resting, quiet.phaseLength_eq]
  exact ⟨TrackState.length_trace _ _ _ _, quiet⟩

/-- With a figure that ends a phase, or a stop behind the riff, all phases come to their end. -/
theorem complete_of_lively (runs : plan.Runs program (Track.fetch {} code))
    (size : program.size ≤ 130) (few : plan.steps.length ≤ 11) (lively : plan.Lively)
    (frame : Nat) :
    Track.executedAt {} code frame = [] ∨
      TrackState.Complete 255 (Track.executedAt {} code frame) := by
  have fits : 38 + program.size + 1 ≤ ({} : Track).config.maxInstructions := by
    show 38 + program.size + 1 ≤ 255
    omega
  obtain nothing | complete := Program.complete_of_home runs.placed runs.behind rfl
    (homing runs) (endsFromHome runs .wrapping few lively) fits frame
  · exact .inl nothing
  · exact .inr (complete.mono (by omega))

end Play

end Plan

/-- A generated script is the text of a plan, whose code it is compiled to. -/
theorem exists_plan {source rest : WordSource} {text : String}
    (generated : generate source = some (text, rest)) :
    ∃ plan script code, drawPlan source = some (plan, rest) ∧ plan.text = text ∧
      Script.parse text = .ok script ∧ Script.compile script = .ok code ∧
      plan.steps.length ≤ 11 ∧ Script.Accepted plan.script code ∧ code.size ≤ 130 := by
  obtain ⟨⟨plan, rest'⟩, drawn, same⟩ := Option.map_eq_some_iff.mp generated
  cases same
  have few := (length_of_drawPlan drawn).2
  obtain ⟨code, accepted, size⟩ := plan.exists_accepted few
  obtain ⟨script, parsed, -, accepted'⟩ := accepted.of_isLayout plan.isLayout_text
  exact ⟨plan, script, code, drawn, rfl, parsed, Script.compile_eq_ok_iff.mpr accepted', few,
    accepted, size⟩

/-- A generated script is parsed and compiled.  If one step of its riff does not just jump over a
note, or the script stops behind the riff, every phase of a track that plays it ends with an
instruction that ends one, well before the limit.  Otherwise the third frame is cut off. -/
theorem phases_complete_or_cut_off {source rest : WordSource} {text : String}
    (generated : generate source = some (text, rest)) :
    ∃ plan script code, drawPlan source = some (plan, rest) ∧ plan.text = text ∧
      Script.parse text = .ok script ∧ Script.compile script = .ok code ∧
      if (∃ step ∈ plan.steps, ¬step.figure.Silent) ∨ plan.ending = .stop then
        ∀ frame, Track.executedAt {} code frame = [] ∨
          TrackState.Complete 255 (Track.executedAt {} code frame)
      else
        (Track.executedAt {} code 2).length = 255 ∧
          ∀ instruction ∈ Track.executedAt {} code 2, instruction.endsTick = false := by
  obtain ⟨plan, script, code, drawn, same, parsed, compiled, few, accepted, size⟩ :=
    exists_plan generated
  obtain ⟨program, runs, extent⟩ := Plan.exists_runs accepted (by omega)
  refine ⟨plan, script, code, drawn, same, parsed, compiled, ?_⟩
  split
  next lively => exact Plan.complete_of_lively runs (extent ▸ size) few lively
  next still => exact Plan.cut_off_of_still runs still

/-- What the generator makes of the seed 0 has pauses and system calls in its riff. -/
theorem phases_complete_seedZero :
    let text := "instrument(3)\nticks(2)\nriff10:\nsection()\n" ++
      "set(0) equal(0) ifjump(skip0) play(32) skip0:\nwait(8)\nset(4) instrumentset()\n" ++
      "nop()\nwait(7)\njump(riff10)"
    let rest : WordSource := { state := 1396697697608454411, drawn := 29 }
    generate {} = some (text, rest) ∧
      ∃ script code, Script.parse text = .ok script ∧ Script.compile script = .ok code ∧
        ∀ frame, Track.executedAt {} code frame = [] ∨
          TrackState.Complete 255 (Track.executedAt {} code frame) := by
  intro text rest
  have generated : generate {} = some (text, rest) := by decide +kernel
  obtain ⟨plan, script, code, drawn, -, parsed, compiled, complete⟩ :=
    phases_complete_or_cut_off generated
  have loud : ((drawPlan {}).map fun drawn =>
      drawn.1.steps.any fun step => !decide step.figure.Silent) = some true := by
    decide +kernel
  rw [drawn] at loud
  have lively : ∃ step ∈ plan.steps, ¬step.figure.Silent := by simpa using loud
  rw [if_pos (.inl lively)] at complete
  exact ⟨generated, script, code, parsed, compiled, complete⟩

/-- A riff of two notes that are jumped over goes round until the third frame is cut off. -/
theorem third_phase_cut_off :
    let source : WordSource :=
      { words := [0, 0, 0, 0, 0, 0, 2454267027, 0, 0, 2454267027, 0, 0] }
    let text := "instrument(0)\nticks(0)\nriff0:\nsection()\n" ++
      "set(0) equal(0) ifjump(skip0) play(24) skip0:\n" ++
      "set(0) equal(0) ifjump(skip1) play(24) skip1:\njump(riff0)"
    generate source = some (text, { drawn := 12 }) ∧
      ∃ script code, Script.parse text = .ok script ∧ Script.compile script = .ok code ∧
        (Track.executedAt {} code 2).length = 255 ∧
        ∀ instruction ∈ Track.executedAt {} code 2, instruction.endsTick = false := by
  intro source text
  have generated : generate source = some (text, { drawn := 12 }) := by decide +kernel
  obtain ⟨plan, script, code, drawn, -, parsed, compiled, -, accepted, size⟩ :=
    exists_plan generated
  have still : ((drawPlan source).map fun drawn =>
      drawn.1.steps.all (fun step => decide step.figure.Silent) && drawn.1.ending != .stop) =
        some true := by
    decide +kernel
  rw [drawn] at still
  obtain ⟨program, runs, -⟩ := Plan.exists_runs accepted (by omega)
  refine ⟨generated, script, code, parsed, compiled, Plan.cut_off_of_still runs ?_⟩
  simpa [Plan.Lively] using still

end Sequencer.Generator
