import Sequencer.Proofs.Encoding
import Sequencer.Proofs.Track.History

/-!
# Where repeats lead

A section saves the place it was fetched from, and nothing else does.  So a repeat that leads
anywhere but to the start of the program leads to a section, whatever has happened in between and
however the track has got to the repeat, be it by a jump into an operand.

* `Bytecode.decode_eq_markSection_iff` — the byte of a section is decoded as one, and no other is.
* `Track.Anchored` — the invariant.  `Track.anchored_next` is the step, and
  `Track.anchored_of_reaches` the run.
* `Track.anchor_names_section` — the anchor of a track after any commands, and what is executed
  behind a repeat that is taken.
-/

namespace Sequencer

theorem Bytecode.decode_eq_markSection_iff {code : Bytecode} {offset : Nat} :
    code.decode offset = .markSection ↔ code.byteAt offset = Opcode.markSection.byte := by
  constructor
  · intro decoded
    rw [decode] at decoded
    split at decoded
    next opcode known =>
      rw [← Opcode.byte_of_ofByte?_eq_some known]
      cases opcode with
      | markSection => rfl
      | _ => cases decoded
    next => cases decoded
  · intro byte
    rw [decode, byte, Opcode.ofByte?_byte]
    rfl

namespace TrackState

/-- Whether the next instruction is a repeat that is taken. -/
def TakesRepeat (fetch : UInt16 → Instruction) (state : TrackState) : Prop :=
  ∃ condition, fetch state.cursor = .repeatSection condition ∧ condition.holds state.flag = true

/-- A repeat that is taken leads to the anchor and leaves it as it is. -/
theorem TakesRepeat.next_eq {fetch : UInt16 → Instruction} {state : TrackState}
    (taken : state.TakesRepeat fetch) (arithmetic : Arithmetic) :
    (state.next arithmetic fetch).cursor = state.sectionAnchor ∧
      (state.next arithmetic fetch).sectionAnchor = state.sectionAnchor := by
  obtain ⟨condition, fetched, holds⟩ := taken
  rw [next, fetched, cursor_execute, sectionAnchor_execute]
  simp [holds]

end TrackState

/-- Whether the step executes the section at an anchor, which saves that anchor again. -/
def TrackStep.Resaves (arithmetic : Arithmetic) (fetch : UInt16 → Instruction) (anchor : UInt16) :
    TrackStep → Prop
  | execute state => state.cursor = anchor ∧ fetch state.cursor = .markSection ∧
      (state.next arithmetic fetch).sectionAnchor = anchor
  | reset => False

namespace Track

/-- Whether the anchor is the start of the program or the byte it names is that of a section. -/
def Anchored (track : Track) (code : Bytecode) (state : TrackState) : Prop :=
  state.sectionAnchor = 0 ∨
    code.byteAt (track.base.toNat + state.sectionAnchor.toNat) = Opcode.markSection.byte

variable {track : Track} {code : Bytecode} {state last : TrackState} {steps : List TrackStep}

theorem Anchored.congr {other : TrackState} (anchored : track.Anchored code state)
    (same : other.lasting = state.lasting) : track.Anchored code other := by
  have anchor : other.sectionAnchor = state.sectionAnchor := by
    simpa using congrArg TrackState.sectionAnchor same
  rwa [Anchored, anchor]

theorem anchored_next (anchored : track.Anchored code state) (arithmetic : Arithmetic) :
    track.Anchored code (state.next arithmetic (track.fetch code)) := by
  rw [Anchored, TrackState.next, TrackState.sectionAnchor_execute]
  split
  next section' => exact .inr (Bytecode.decode_eq_markSection_iff.mp section')
  next => exact anchored

theorem anchored_of_reaches {arithmetic : Arithmetic}
    (reached : TrackState.Reaches arithmetic (track.fetch code) steps last) :
    track.Anchored code last := by
  induction reached with
  | fresh => exact .inl rfl
  | execute reached ih => exact anchored_next ih arithmetic
  | reset reached ih => exact .inl rfl
  | pass reached same ih => exact ih.congr same

/-- Behind a repeat that is taken to an anchor other than zero, the section there is executed,
unless the track is reset first. -/
theorem resaves_of_takesRepeat {arithmetic : Arithmetic} {before after : List TrackStep}
    (reached : TrackState.Reaches arithmetic (track.fetch code) steps last)
    (split : steps = before ++ .execute state :: after)
    (taken : state.TakesRepeat (track.fetch code)) (named : state.sectionAnchor ≠ 0)
    {step : TrackStep} (follows : step ∈ after.head?) :
    step = .reset ∨ step.Resaves arithmetic (track.fetch code) state.sectionAnchor := by
  obtain ⟨later, rfl⟩ := List.head?_eq_some_iff.mp follows
  cases step with
  | reset => exact .inl rfl
  | execute following =>
    -- by the invariant the repeat leads to a section, and nothing in between moves the cursor
    have anchored := anchored_of_reaches (reached.of_split split)
    have fetched : track.fetch code state.sectionAnchor = .markSection :=
      Bytecode.decode_eq_markSection_iff.mpr (anchored.resolve_left named)
    have same := reached.next_of_split split
    have cursor : following.cursor = (state.next arithmetic (track.fetch code)).cursor := by
      simpa using congrArg TrackState.cursor same
    rw [(taken.next_eq arithmetic).1] at cursor
    refine .inr ⟨cursor, by rw [cursor, fetched], ?_⟩
    rw [TrackState.next, TrackState.sectionAnchor_execute, cursor, if_pos fetched]

/-- After any commands, and whenever an instruction is fetched, the anchor is zero or the byte it
names is that of a section.  What a track executes behind a repeat that is taken to an anchor
other than zero is this section, which saves the same anchor again.  It does so even if the limit
of the phase comes in between, and only a reset, which makes the track a new one, prevents it. -/
theorem anchor_names_section (code : Bytecode) (base : UInt16) (config : TrackConfig)
    (commands : List TrackCommand) :
    let track : Track := { base, config }
    track.Anchored code (track.run code commands).1.state ∧
    ∀ before state after, track.steps code commands = before ++ .execute state :: after →
      track.Anchored code state ∧
      (state.TakesRepeat (track.fetch code) → state.sectionAnchor ≠ 0 →
        ∀ step ∈ after.head?, step = .reset ∨
          step.Resaves config.arithmetic (track.fetch code) state.sectionAnchor) := by
  intro track
  have reached := reaches_run_new base config code commands
  refine ⟨anchored_of_reaches reached, fun before state after split => ?_⟩
  refine ⟨anchored_of_reaches (reached.of_split split), fun taken named step follows => ?_⟩
  exact resaves_of_takesRepeat reached split taken named follows

/-- A repeat that is the last instruction of its phase. -/
def cutOffRepeat : Bytecode :=
  #[0xF6, 0, 0xFB, 0xF8]

/-- The track is stopped behind the repeat.  Once it goes on, it executes the section. -/
theorem anchor_cutOffRepeat :
    let track : Track := { base := 1, config.maxInstructions := 2 }
    let commands : List TrackCommand := [.dispatch, .dispatch, .halt, .dispatch, .resume, .dispatch]
    let state : TrackState := { cursor := 2, sectionAnchor := 1 }
    let following : TrackStep := .execute { cursor := 1, sectionAnchor := 1 }
    track.steps cutOffRepeat commands =
      [.execute {}, .execute { cursor := 1 }] ++ .execute state :: [following, .execute state] ∧
    state.TakesRepeat (track.fetch cutOffRepeat) ∧ state.sectionAnchor ≠ 0 ∧
    following.Resaves .wrapping (track.fetch cutOffRepeat) 1 := by
  intro track commands state following
  have split : track.steps cutOffRepeat commands =
      [.execute {}, .execute { cursor := 1 }] ++
        .execute state :: [following, .execute state] := by decide
  have taken : state.TakesRepeat (track.fetch cutOffRepeat) := ⟨.ifClear, by decide⟩
  have named : state.sectionAnchor ≠ 0 := by decide
  obtain ⟨-, steps⟩ := anchor_names_section cutOffRepeat 1 { maxInstructions := 2 } commands
  obtain impossible | resaves := (steps _ _ _ split).2 taken named following rfl
  · exact absurd impossible (by decide)
  · exact ⟨split, taken, named, resaves⟩

end Track

end Sequencer
