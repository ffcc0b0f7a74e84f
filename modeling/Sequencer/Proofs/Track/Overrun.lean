import Sequencer.Proofs.Track.Program

/-!
# Behind the last halt

A `halt` stops a track, but not the phase it is executed in.  So a track whose
program lies in a larger buffer goes on with what lies behind the program, until an
instruction ends the phase or there have been too many.

* `TrackState.overrun` — the events a frame raises that way.
* `Routine.runPhase_overrun`, `Routine.dispatch_overrun` — they are all that tells a
  program in a larger buffer from the same program with nothing but zeros behind it.
-/

namespace Sequencer

namespace TrackState

/-- The events of a phase from where the cursor has left the first `size` bytes. -/
def overrunPhase (arithmetic : Arithmetic) (fetch : UInt16 → Instruction) (size : Nat) :
    Nat → TrackState → List Event
  | 0, _ => []
  | limit + 1, state =>
    if state.cursor.toNat < size then
      let instruction := fetch state.cursor
      if instruction.endsTick then []
      else overrunPhase arithmetic fetch size limit (state.execute arithmetic instruction).1
    else
      (state.runPhase arithmetic fetch (limit + 1) []).2.reverse

/-- The events of a frame from where the cursor has left the first `size` bytes.  A frame that
runs no phase has none. -/
def overrun (config : TrackConfig) (fetch : UInt16 → Instruction) (size : Nat)
    (state : TrackState) : List Event :=
  if state.halted ∨ 0 < state.tickCounter ∨ 0 < state.waitCounter then []
  else
    { state.clearPulses with tickCounter := state.tickRate }.overrunPhase
      config.arithmetic fetch size config.maxInstructions

theorem halted_runPhase (arithmetic : Arithmetic) (fetch : UInt16 → Instruction) (limit : Nat)
    {state : TrackState} (halted : state.halted = true) (heard : List Event) :
    (state.runPhase arithmetic fetch limit heard).1.halted = true := by
  induction limit generalizing state heard with
  | zero => exact halted
  | succ limit ih =>
    have kept : (state.execute arithmetic (fetch state.cursor)).1.halted = true := by
      rw [halted_execute, halted, Bool.true_or]
    simp only [runPhase]
    split
    · exact kept
    · exact ih kept _

end TrackState

namespace Routine

variable {routine : Routine} {alone shared : UInt16 → Instruction} {state : TrackState}

/-- Wherever a routine is placed, the same instructions are fetched. -/
theorem Placed.fetch_eq (here : routine.Placed alone) (there : routine.Placed shared)
    (holds : routine.Holds state) : shared state.cursor = alone state.cursor := by
  obtain ⟨inside, -⟩ := holds
  generalize place : state.cursor.toNat = offset at inside
  cases inside with
  | @start _ instruction starts =>
    subst place
    rw [here.start _ _ starts, there.start _ _ starts]
  | high conditional starts => rw [here.high _ _ _ _ place starts, there.high _ _ _ _ place starts]

/-- The two states agree inside the routine, or both have been halted at its end. -/
def Lockstep (routine : Routine) (first second : TrackState) : Prop :=
  first = second ∧ routine.Holds first ∨ first.halted = true ∧ second.halted = true

/-- Behind the last `halt` a routine alone raises no event. -/
theorem runPhase_alone_end (arithmetic : Arithmetic) (limit : Nat)
    (silent : ∀ cursor : UInt16, routine.size ≤ cursor.toNat → alone cursor = .nop)
    (ended : state.cursor.toNat = routine.size) :
    (state.runPhase arithmetic alone limit []).2 = [] := by
  cases limit with
  | zero => rfl
  | succ limit =>
    have nop := silent state.cursor (Nat.le_of_eq ended.symm)
    simp [TrackState.runPhase, nop, TrackState.execute, Instruction.endsTick]

theorem runPhase_overrun (arithmetic : Arithmetic) (here : routine.Placed alone)
    (there : routine.Placed shared)
    (silent : ∀ cursor : UInt16, routine.size ≤ cursor.toNat → alone cursor = .nop)
    (limit : Nat) (holds : routine.Holds state) :
    (state.runPhase arithmetic shared limit []).2 =
        (state.overrunPhase arithmetic shared routine.size limit).reverse ++
          (state.runPhase arithmetic alone limit []).2 ∧
      routine.Lockstep (state.runPhase arithmetic alone limit []).1
        (state.runPhase arithmetic shared limit []).1 ∧
      ((state.runPhase arithmetic alone limit []).1.halted = false →
        state.overrunPhase arithmetic shared routine.size limit = []) := by
  -- on the instructions left: both phases do the same until the last `halt`
  induction limit generalizing state with
  | zero => exact ⟨rfl, .inl ⟨rfl, holds⟩, fun _ => rfl⟩
  | succ limit ih =>
    have same := here.fetch_eq there holds
    have inside := holds.cursor.lt_size
    have next := execute_holds arithmetic here holds
    simp only [TrackState.runPhase, TrackState.overrunPhase, same, if_pos inside]
    by_cases ends : (alone state.cursor).endsTick
    · simp only [ends, if_true]
      refine ⟨rfl, .inl ⟨rfl, ?_⟩, fun _ => trivial⟩
      obtain kept | ⟨last, -⟩ := next
      · exact kept
      · -- a `halt` does not end the phase
        rw [last] at ends
        cases ends
    · simp only [ends, Bool.false_eq_true, if_false]
      rw [TrackState.runPhase_eq_append _ shared, TrackState.runPhase_eq_append _ alone]
      obtain kept | ⟨last, ended⟩ := next
      · obtain ⟨events, lockstep, contained⟩ := ih kept
        exact ⟨by simp [events], lockstep, contained⟩
      · -- the rest of the phase is run behind the routine
        have halted : (state.execute arithmetic (alone state.cursor)).1.halted = true := by
          rw [TrackState.halted_execute, last]
          simp
        have behind : (state.execute arithmetic (alone state.cursor)).1.overrunPhase arithmetic shared
            routine.size limit = ((state.execute arithmetic (alone state.cursor)).1.runPhase
              arithmetic shared limit []).2.reverse := by
          cases limit with
          | zero => rfl
          | succ limit => simp only [TrackState.overrunPhase, ended, Nat.lt_irrefl, if_false]
        have stopped := TrackState.halted_runPhase arithmetic alone limit halted []
        refine ⟨?_, .inr ⟨stopped, TrackState.halted_runPhase _ _ _ halted _⟩, ?_⟩
        · simp [behind, runPhase_alone_end arithmetic limit silent ended]
        · intro running
          rw [stopped] at running
          cases running

/-- A frame of a running track raises the same events as the routine alone, and then those from
behind the routine, of which there are none unless it halts. -/
theorem dispatch_overrun (config : TrackConfig) (here : routine.Placed alone)
    (there : routine.Placed shared)
    (silent : ∀ cursor : UInt16, routine.size ≤ cursor.toNat → alone cursor = .nop)
    (holds : routine.Holds state) (running : state.halted = false) :
    (state.dispatch config shared).2 =
        (state.dispatch config alone).2 ++ state.overrun config shared routine.size ∧
      routine.Lockstep (state.dispatch config alone).1 (state.dispatch config shared).1 ∧
      ((state.dispatch config alone).1.halted = false →
        state.overrun config shared routine.size = []) := by
  unfold TrackState.dispatch TrackState.overrun
  simp only [running, Bool.false_eq_true, if_false, false_or]
  by_cases counting : 0 < state.tickCounter
  · simp only [counting, if_true, true_or]
    exact ⟨rfl, .inl ⟨rfl, holds.cursor, holds.anchor⟩, fun _ => trivial⟩
  · by_cases pausing : 0 < state.waitCounter
    · simp only [counting, pausing, TrackState.clearPulses, if_true, if_false, or_true]
      exact ⟨rfl, .inl ⟨rfl, holds.cursor, holds.anchor⟩, fun _ => trivial⟩
    · have ready : routine.Holds { state.clearPulses with tickCounter := state.tickRate } :=
        ⟨holds.cursor, holds.anchor⟩
      obtain ⟨events, lockstep, contained⟩ :=
        runPhase_overrun config.arithmetic here there silent config.maxInstructions ready
      have still : ¬0 < ({ state.clearPulses with tickCounter := state.tickRate } :
        TrackState).waitCounter := pausing
      simp only [counting, pausing, still, if_false, or_self]
      exact ⟨by simp [events], lockstep, contained⟩

end Routine

end Sequencer
