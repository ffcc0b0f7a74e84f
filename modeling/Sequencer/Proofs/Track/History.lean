import Sequencer.Proofs.Track.Steps

/-!
# The history of a track

A host can let frames pass, stop a track, let it go on and reset it, in any order.  What it does
between two instructions changes counters, pulses and the halt flag, and nothing else unless it
resets the track.  So all the rest of a state comes from the instructions since then.

* `TrackStep` — an instruction that is executed, or a reset.  `Track.steps` lists the steps of a
  track over the commands of its host.
* `TrackState.lasting` — a state without its counters, its pulses and its halt flag.
* `TrackState.Reaches` — the states in which steps leave a track, as a relation with a case for
  each kind of step.  `Reaches.dispatch` is about a frame, `Track.reaches_run` about a run.
* `Reaches.of_split`, `Reaches.next_of_split` — the states in front of a step and behind one.
* `executedSinceReset` — the instructions among the steps behind the last reset, which are all of
  a track that is left alone.
-/

namespace Sequencer

/-- What changes a track for good. -/
inductive TrackStep where
  /-- The instruction that is fetched in this state is executed. -/
  | execute (state : TrackState)
  | reset
deriving Repr, DecidableEq, Inhabited

/-- The instructions executed since the last reset, when this step is the next one. -/
def TrackStep.record (fetch : UInt16 → Instruction) (executed : List Instruction) :
    TrackStep → List Instruction
  | execute state => executed ++ [fetch state.cursor]
  | reset => []

/-- The instructions that the steps execute, those behind the last reset. -/
def executedSinceReset (fetch : UInt16 → Instruction) (steps : List TrackStep) :
    List Instruction :=
  steps.foldl (TrackStep.record fetch) []

@[simp] theorem executedSinceReset_execute (fetch : UInt16 → Instruction)
    (steps : List TrackStep) (state : TrackState) :
    executedSinceReset fetch (steps ++ [.execute state]) =
      executedSinceReset fetch steps ++ [fetch state.cursor] := by
  rw [executedSinceReset, List.foldl_append]
  rfl

@[simp] theorem executedSinceReset_reset (fetch : UInt16 → Instruction)
    (steps : List TrackStep) : executedSinceReset fetch (steps ++ [.reset]) = [] := by
  rw [executedSinceReset, List.foldl_append]
  rfl

theorem executedSinceReset_map_execute (fetch : UInt16 → Instruction) (steps : List TrackStep)
    (states : List TrackState) :
    executedSinceReset fetch (steps ++ states.map .execute) =
      executedSinceReset fetch steps ++ states.map (fetch ·.cursor) := by
  induction states generalizing steps with
  | nil => simp
  | cons state states ih =>
    rw [List.map_cons, List.append_cons, ih, executedSinceReset_execute, List.append_assoc]
    rfl

/-- Where the last element of a list stands, given one of its elements. -/
theorem concat_eq_append_cons {α : Type} {front before after : List α} {final element : α}
    (split : front ++ [final] = before ++ element :: after) :
    after = [] ∧ front = before ∧ final = element ∨
      ∃ later, after = later ++ [final] ∧ front = before ++ element :: later := by
  obtain rfl | ⟨later, final', rfl⟩ := after.eq_nil_or_concat
  · obtain ⟨same, last⟩ := List.append_inj' split rfl
    exact .inl ⟨rfl, same, List.singleton_inj.mp last⟩
  · rw [List.concat_eq_append, ← List.cons_append, ← List.append_assoc] at split
    obtain ⟨same, last⟩ := List.append_inj' split rfl
    obtain rfl := List.singleton_inj.mp last
    exact .inr ⟨later, by simp, same⟩

namespace TrackState

/-- The state without what can change between two instructions. -/
def lasting (state : TrackState) : TrackState :=
  { state.untimed with halted := false }

@[simp] theorem cursor_lasting (state : TrackState) : state.lasting.cursor = state.cursor :=
  rfl

@[simp] theorem sectionAnchor_lasting (state : TrackState) :
    state.lasting.sectionAnchor = state.sectionAnchor :=
  rfl

@[simp] theorem register_lasting (state : TrackState) : state.lasting.register = state.register :=
  rfl

theorem lasting_ready (state : TrackState) : state.ready.lasting = state.lasting :=
  rfl

section Reaches

variable (arithmetic : Arithmetic) (fetch : UInt16 → Instruction)

/-- Steps of a fresh track leave it in such a state, whatever else has passed. -/
inductive Reaches : List TrackStep → TrackState → Prop where
  | fresh : Reaches [] {}
  | execute {steps : List TrackStep} {state : TrackState} (reached : Reaches steps state) :
      Reaches (steps ++ [.execute state]) (state.next arithmetic fetch)
  | reset {steps : List TrackStep} {state : TrackState} (reached : Reaches steps state) :
      Reaches (steps ++ [.reset]) {}
  | pass {steps : List TrackStep} {state other : TrackState} (reached : Reaches steps state)
      (same : other.lasting = state.lasting) : Reaches steps other

variable {arithmetic : Arithmetic} {fetch : UInt16 → Instruction}
  {steps before after : List TrackStep} {state last : TrackState}

theorem Reaches.iterate_next (reached : Reaches arithmetic fetch steps state) (count : Nat) :
    Reaches arithmetic fetch
      (steps ++ ((List.range count).map fun passed =>
        (next arithmetic fetch)^[passed] state).map .execute)
      ((next arithmetic fetch)^[count] state) := by
  induction count with
  | zero => simpa using reached
  | succ count ih =>
    rw [List.range_succ, List.map_append, List.map_append, ← List.append_assoc,
      Function.iterate_succ_apply']
    exact ih.execute

/-- A frame adds the instructions it executes. -/
theorem Reaches.dispatch {config : TrackConfig}
    (reached : Reaches config.arithmetic fetch steps state) :
    Reaches config.arithmetic fetch (steps ++ (state.fetching config fetch).map .execute)
      (state.dispatch config fetch).1 := by
  by_cases halted : state.halted = true
  · rw [(dispatch_of_halted config fetch halted).1]
    simpa [fetching, halted] using reached
  have running : state.halted = false := by simpa using halted
  by_cases counting : 0 < state.tickCounter
  · rw [(dispatch_of_counting config fetch running counting).1]
    simp only [fetching, counting, true_or, or_true, if_true, List.map_nil, List.append_nil]
    exact reached.pass rfl
  by_cases pausing : 0 < state.waitCounter
  · rw [(dispatch_of_pausing config fetch running counting pausing).1]
    simp only [fetching, pausing, or_true, if_true, List.map_nil, List.append_nil]
    exact reached.pass rfl
  · rw [(dispatch_of_ready config fetch running counting pausing).1, fetching,
      if_neg (by simp [running, counting, pausing])]
    exact (reached.pass (lasting_ready state)).iterate_next _

/-- An instruction is fetched in a state that the steps in front of it lead to. -/
theorem Reaches.of_split (reached : Reaches arithmetic fetch steps last)
    (split : steps = before ++ .execute state :: after) :
    Reaches arithmetic fetch before state := by
  -- the last step is this one, or it is one behind it
  induction reached generalizing after with
  | fresh => simp at split
  | execute reached ih =>
    obtain ⟨rfl, rfl, same⟩ | ⟨later, -, rfl⟩ := concat_eq_append_cons split
    · obtain rfl := TrackStep.execute.inj same
      exact reached
    · exact ih rfl
  | reset reached ih =>
    obtain ⟨-, -, impossible⟩ | ⟨later, -, rfl⟩ := concat_eq_append_cons split
    · cases impossible
    · exact ih rfl
  | pass reached same ih => exact ih split

/-- What an instruction leaves lasts. -/
theorem Reaches.lasting_eq (reached : Reaches arithmetic fetch steps last)
    (split : steps = before ++ [.execute state]) :
    last.lasting = (state.next arithmetic fetch).lasting := by
  induction reached with
  | fresh => simp at split
  | execute reached ih =>
    obtain ⟨-, same⟩ := List.append_inj' split rfl
    obtain rfl := TrackStep.execute.inj (List.singleton_inj.mp same)
    rfl
  | reset reached ih =>
    obtain ⟨-, impossible⟩ := List.append_inj' split rfl
    cases impossible
  | pass reached same ih => exact same.trans (ih split)

/-- Of two instructions that follow each other, the second is fetched in the state that the first
one leaves, but for what can change in between. -/
theorem Reaches.next_of_split {later : TrackState} (reached : Reaches arithmetic fetch steps last)
    (split : steps = before ++ .execute state :: .execute later :: after) :
    later.lasting = (state.next arithmetic fetch).lasting := by
  rw [List.append_cons] at split
  exact (reached.of_split split).lasting_eq rfl

end Reaches

end TrackState

namespace Track

/-- The steps of a track by one command. -/
def stepsOf (track : Track) (code : Bytecode) : TrackCommand → List TrackStep
  | .dispatch => (track.state.fetching track.config (track.fetch code)).map .execute
  | .reset => [.reset]
  | .halt | .resume => []

/-- The steps of a track by commands of its host, in order. -/
def steps (track : Track) (code : Bytecode) : List TrackCommand → List TrackStep
  | [] => []
  | command :: commands =>
    track.stepsOf code command ++ (track.perform code command).1.steps code commands

variable {track : Track} {code : Bytecode}

theorem steps_append (commands others : List TrackCommand) :
    track.steps code (commands ++ others) =
      track.steps code commands ++ (track.run code commands).1.steps code others := by
  induction commands generalizing track with
  | nil => rfl
  | cons command commands ih =>
    rw [List.cons_append, steps, ih, steps, run_cons, List.append_assoc]

/-- Over frames and nothing else, these are all instructions that the track executes. -/
theorem executedSinceReset_frames (track : Track) (code : Bytecode) (frames : Nat) :
    executedSinceReset (track.fetch code) (track.steps code (List.replicate frames .dispatch)) =
      (List.range frames).flatMap (track.executedAt code) := by
  induction frames with
  | zero => rfl
  | succ frames ih =>
    have last : (track.after code frames).steps code [.dispatch] =
        (track.fetchingAt code frames).map .execute := by
      rw [steps, steps, List.append_nil, after_eq]
      rfl
    rw [List.replicate_succ', steps_append, run_replicate_dispatch, last,
      executedSinceReset_map_execute, ih, List.range_succ, List.flatMap_append,
      List.flatMap_singleton, executedAt, TrackState.executed_eq_map_fetching]
    rfl

/-- The step: one command adds its steps. -/
theorem reaches_perform {before : List TrackStep}
    (reached : TrackState.Reaches track.config.arithmetic (track.fetch code) before track.state)
    (command : TrackCommand) :
    TrackState.Reaches track.config.arithmetic (track.fetch code)
      (before ++ track.stepsOf code command) (track.perform code command).1.state := by
  cases command with
  | dispatch => exact reached.dispatch
  | reset => exact reached.reset
  | halt | resume =>
    rw [stepsOf, List.append_nil]
    exact reached.pass rfl

/-- The run: so do all commands of a list. -/
theorem reaches_run {before : List TrackStep}
    (reached : TrackState.Reaches track.config.arithmetic (track.fetch code) before track.state)
    (commands : List TrackCommand) :
    TrackState.Reaches track.config.arithmetic (track.fetch code)
      (before ++ track.steps code commands) (track.run code commands).1.state := by
  induction commands generalizing track before with
  | nil => simpa [steps] using reached
  | cons command commands ih =>
    -- a command changes neither the program nor the way it runs
    have kept : (track.perform code command).1.config = track.config ∧
        (track.perform code command).1.fetch code = track.fetch code := by
      cases command <;> exact ⟨rfl, rfl⟩
    have first := reaches_perform reached command
    rw [← kept.1, ← kept.2] at first ⊢
    rw [steps, run_cons, ← List.append_assoc]
    exact ih first

/-- A new track is where its steps lead. -/
theorem reaches_run_new (base : UInt16) (config : TrackConfig) (code : Bytecode)
    (commands : List TrackCommand) :
    let track : Track := { base, config }
    TrackState.Reaches config.arithmetic (track.fetch code) (track.steps code commands)
      (track.run code commands).1.state := by
  intro track
  exact @reaches_run track code [] .fresh commands

end Track

end Sequencer
