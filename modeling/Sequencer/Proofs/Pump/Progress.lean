import Mathlib.Data.List.Induction
import Sequencer.Proofs.Pump

/-!
# A pump that nothing ends goes round

A pump ends if it is told to, if it can get no more messages, or if it has cues that nobody
takes.  Otherwise it goes round without end, and takes whatever waits for it.

* `Pump.Accounted` — what has ended a pump, or will, was done by the host.
* `Pump.Going`, `Pump.Going.turn` — a pump that nothing ends, and what each of its turns does.
* `Pump.Going.iterations` — three turns make an iteration, whatever the host does in between.
* `Pump.Going.turns` — three turns take a written song and the oldest message.
-/

namespace Sequencer

/-- Whether an action ends the pump, sooner or later. -/
def PumpAction.ends : PumpAction → Bool
  | .send .shutdown | .disconnect | .dropCues => true
  | .write _ | .send .run | .send .stop | .turn => false

theorem PumpAction.eq_turn {action : PumpAction} (starts : action.starts = false)
    (ends : action.ends = false) : action = .turn := by
  cases action with
  | turn => rfl
  | write | disconnect | dropCues => simp [PumpAction.starts, PumpAction.ends] at starts ends
  | send message => cases message <;> simp [PumpAction.starts, PumpAction.ends] at starts ends

namespace PumpStage

/-- The stage that comes next unless something ends the pump. -/
def next : PumpStage → PumpStage
  | song => message
  | message => frame
  | frame => song
  | ended => ended

/-- The number of turns of an iteration that have been made. -/
def turns : PumpStage → Nat
  | song | ended => 0
  | message => 1
  | frame => 2

theorem turns_next {stage : PumpStage} (going : stage ≠ ended) :
    3 * (decide (stage = frame)).toNat + stage.next.turns = stage.turns + 1 := by
  cases stage with
  | ended => exact absurd rfl going
  | song | message | frame => rfl

end PumpStage

namespace Pump

variable {config : PlayerConfig} {actions : List PumpAction} {action : PumpAction} {pump : Pump}

/-! ## What ends the pump -/

/-- What would end the pump has been done by the host. -/
structure Accounted (actions : List PumpAction) (pump : Pump) : Prop where
  shutdown : .shutdown ∈ pump.inbox → .send .shutdown ∈ actions
  connected : pump.connected = false → .disconnect ∈ actions
  listening : pump.listening = false → .dropCues ∈ actions
  ended : pump.stage = .ended →
    .send .shutdown ∈ actions ∨ .disconnect ∈ actions ∨ .dropCues ∈ actions

theorem Accounted.later (accounted : Accounted actions pump) (action : PumpAction) :
    Accounted (actions ++ [action]) pump := by
  have kept : actions ⊆ actions ++ [action] := List.subset_append_left _ _
  exact ⟨fun waits => kept (accounted.shutdown waits), fun lost => kept (accounted.connected lost),
    fun deaf => kept (accounted.listening deaf),
    fun done => (accounted.ended done).imp (kept ·) (.imp (kept ·) (kept ·))⟩

theorem Accounted.turn (accounted : Accounted actions pump) : Accounted actions pump.turn := by
  obtain ⟨shutdown, connected, listening, ended⟩ := accounted
  cases stage : pump.stage with
  | song =>
    simp only [Pump.turn, stage, Pump.takeSong]
    split <;> exact ⟨shutdown, connected, listening, fun impossible => by cases impossible⟩
  | message =>
    simp only [Pump.turn, stage]
    obtain ⟨messages, -, hosting, listener, -, next⟩ := pump.takeMessage_cases
    refine ⟨fun waits => shutdown (List.mem_of_mem_tail (messages ▸ waits)),
      fun lost => connected (hosting ▸ lost), fun deaf => listening (listener ▸ deaf),
      fun done => ?_⟩
    obtain ⟨-, -, next⟩ | ⟨-, -, next⟩ | ⟨-, -, next⟩ | ⟨⟨rest, waiting⟩, -, -⟩ := next
    · refine .inr (.inl (connected ?_))
      by_contra still
      simp [next, still] at done
    · cases next.symm.trans done
    · cases next.symm.trans done
    · exact .inl (shutdown (waiting ▸ List.mem_cons_self))
  | frame =>
    simp only [Pump.turn, stage]
    obtain ⟨-, -, messages, hosting, listener, ⟨going, -⟩ | ⟨-, -, deaf⟩⟩ := pump.runFrame_cases
    all_goals
      rw [← messages] at shutdown
      rw [← hosting] at connected
      refine ⟨shutdown, connected, fun deaf => listening (listener ▸ deaf), fun done => ?_⟩
    · rw [going] at done
      cases done
    · exact .inr (.inr (listening deaf))
  | ended =>
    simp only [Pump.turn, stage]
    exact ⟨shutdown, connected, listening, ended⟩

/-- A pump that has ended was told to, or can get no more messages, or gives cues nobody takes. -/
theorem accounted (config : PlayerConfig) (actions : List PumpAction) :
    Accounted actions (after config actions) := by
  induction actions using List.reverseRecOn with
  | nil => constructor <;> intro impossible <;> cases impossible
  | append_singleton actions action ih =>
    rw [after_append_singleton]
    obtain ⟨shutdown, connected, listening, ended⟩ := ih.later action
    cases action with
    | turn => exact ih.turn.later _
    | write song => exact ⟨shutdown, connected, listening, ended⟩
    | disconnect => exact ⟨shutdown, fun _ => by simp, listening, ended⟩
    | dropCues => exact ⟨shutdown, connected, fun _ => by simp, ended⟩
    | send message =>
      refine ⟨fun waits => ?_, connected, listening, ended⟩
      obtain waits | new := List.mem_append.mp waits
      · exact shutdown waits
      · rw [List.mem_singleton.mp new]
        simp

/-! ## Going round -/

/-- A pump that has not ended and that nothing will end. -/
structure Going (pump : Pump) : Prop where
  noShutdown : .shutdown ∉ pump.inbox
  connected : pump.connected = true
  listening : pump.listening = true
  stage : pump.stage ≠ .ended

theorem going_after (lasting : ∀ action ∈ actions, action.ends = false) :
    Going (after config actions) := by
  have absent : ∀ action : PumpAction, action.ends = true → action ∉ actions := by
    intro action ends member
    rw [lasting action member] at ends
    cases ends
  obtain ⟨shutdown, connected, listening, ended⟩ := accounted config actions
  refine ⟨mt shutdown (absent _ rfl), ?_, ?_, ?_⟩
  · exact eq_true_of_ne_false (mt connected (absent _ rfl))
  · exact eq_true_of_ne_false (mt listening (absent _ rfl))
  · intro finished
    obtain sent | lost | deaf := ended finished
    · exact absent _ rfl sent
    · exact absent _ rfl lost
    · exact absent _ rfl deaf

/-- Each turn is the next of an iteration, of which the first takes a written song and the second
takes a message. -/
theorem Going.turn (going : pump.Going) :
    pump.turn.Going ∧ pump.turn.stage = pump.stage.next ∧
      pump.turn.written = (if pump.stage = .song then none else pump.written) ∧
      pump.turn.inbox = (if pump.stage = .message then pump.inbox.tail else pump.inbox) := by
  obtain ⟨noShutdown, connected, listening, going⟩ := going
  cases stage : pump.stage with
  | song =>
    simp only [Pump.turn, stage, takeSong]
    split
    next => exact ⟨⟨noShutdown, connected, listening, by simp⟩, rfl, rfl, rfl⟩
    next empty => exact ⟨⟨noShutdown, connected, listening, by simp⟩, rfl, empty, rfl⟩
  | message =>
    simp only [Pump.turn, stage]
    obtain ⟨messages, written, hosting, listener, -, next⟩ := pump.takeMessage_cases
    have onward : pump.takeMessage.stage = .frame := by
      obtain ⟨-, -, next⟩ | ⟨-, -, next⟩ | ⟨-, -, next⟩ | ⟨⟨rest, waiting⟩, -, -⟩ := next
      · rw [next, if_pos connected]
      · exact next
      · exact next
      · exact absurd (waiting ▸ List.mem_cons_self) noShutdown
    exact ⟨⟨fun waits => noShutdown (List.mem_of_mem_tail (messages ▸ waits)),
      hosting.trans connected, listener.trans listening, by simp [onward]⟩, onward, written,
      messages⟩
  | frame =>
    simp only [Pump.turn, stage]
    obtain ⟨-, written, inbox, hosting, listener, ⟨finished, -⟩ | ⟨-, -, deaf⟩⟩ :=
      pump.runFrame_cases
    · exact ⟨⟨inbox ▸ noShutdown, hosting.trans connected, listener.trans listening,
        by simp [finished]⟩, finished, written, inbox⟩
    · rw [listening] at deaf
      cases deaf
  | ended => exact absurd stage going

theorem Going.perform (going : pump.Going) (lasting : action.ends = false) :
    (pump.perform action).Going ∧
      3 * (pump.completes action).toNat + (pump.perform action).stage.turns =
        pump.stage.turns + [action].count .turn := by
  cases action with
  | turn =>
    obtain ⟨going', next, -, -⟩ := going.turn
    have completed : pump.completes .turn = decide (pump.stage = .frame) := by
      cases stage : pump.stage <;> simp [completes, Pump.perform, next, stage, PumpStage.next]
    refine ⟨going', ?_⟩
    rw [completed, Pump.perform, next]
    exact PumpStage.turns_next going.stage
  | disconnect | dropCues => cases lasting
  | write song =>
    obtain ⟨noShutdown, connected, listening, stage⟩ := going
    exact ⟨⟨noShutdown, connected, listening, stage⟩, by simp [completes, Pump.perform]⟩
  | send message =>
    obtain ⟨noShutdown, connected, listening, stage⟩ := going
    refine ⟨⟨?_, connected, listening, stage⟩, by simp [completes, Pump.perform]⟩
    intro member
    obtain before | last := List.mem_append.mp member
    · exact noShutdown before
    · rw [← List.mem_singleton.mp last] at lasting
      cases lasting

/-- Whatever the host does in between, three turns make an iteration. -/
theorem Going.iterations (going : pump.Going) (lasting : ∀ action ∈ actions, action.ends = false) :
    3 * pump.iterations actions + (actions.foldl Pump.perform pump).stage.turns =
      pump.stage.turns + actions.count .turn := by
  induction actions generalizing pump with
  | nil => simp [Pump.iterations]
  | cons action actions ih =>
    obtain ⟨first, later⟩ := List.forall_mem_cons.mp lasting
    obtain ⟨going', step⟩ := going.perform first
    have rest := ih going' later
    have count : (action :: actions).count .turn = [action].count .turn + actions.count .turn := by
      rw [← List.count_append, List.singleton_append]
    rw [Pump.iterations, List.foldl_cons, count]
    omega

theorem Going.three_turns (going : pump.Going) :
    (pump.turn.turn.turn).Going ∧ pump.turn.turn.turn.written = none ∧
      pump.turn.turn.turn.inbox = pump.inbox.tail := by
  obtain ⟨first, stage₁, written₁, inbox₁⟩ := going.turn
  obtain ⟨second, stage₂, written₂, inbox₂⟩ := first.turn
  obtain ⟨third, -, written₃, inbox₃⟩ := second.turn
  rw [stage₂, stage₁, written₂, stage₁, written₁] at written₃
  rw [stage₂, stage₁, inbox₂, stage₁, inbox₁] at inbox₃
  rw [written₃, inbox₃]
  -- whichever stage comes first, each of the three comes once
  cases stage : pump.stage with
  | ended => exact absurd stage going.stage
  | song | message | frame => exact ⟨third, by simp [PumpStage.next], by simp [PumpStage.next]⟩

/-- Turns bring back nothing that has been taken. -/
theorem Going.turns_of_written (going : pump.Going) (turns : ∀ action ∈ actions, action = .turn)
    (taken : pump.written = none) :
    (actions.foldl Pump.perform pump).written = none ∧
      (actions.foldl Pump.perform pump).inbox <:+ pump.inbox := by
  induction actions generalizing pump with
  | nil => exact ⟨taken, List.suffix_rfl⟩
  | cons action actions ih =>
    obtain ⟨rfl, later⟩ := List.forall_mem_cons.mp turns
    obtain ⟨going', -, written, inbox⟩ := going.turn
    have shorter : pump.turn.inbox <:+ pump.inbox := by
      rw [inbox]
      split
      next => exact List.tail_suffix _
      next => exact List.suffix_rfl
    have taken' : pump.turn.written = none := by
      rw [written, taken]
      exact ite_self _
    obtain ⟨still, rest⟩ := ih going' later taken'
    exact ⟨still, rest.trans shorter⟩

/-- Three turns take a written song and the oldest message, wherever in an iteration they begin. -/
theorem Going.turns (going : pump.Going) (turns : ∀ action ∈ actions, action = .turn)
    (enough : 3 ≤ actions.length) :
    (actions.foldl Pump.perform pump).written = none ∧
      (actions.foldl Pump.perform pump).inbox <:+ pump.inbox.tail := by
  match actions with
  | [] | [_] | [_, _] => simp at enough
  | action₁ :: action₂ :: action₃ :: rest =>
    simp only [List.forall_mem_cons] at turns
    obtain ⟨rfl, rfl, rfl, later⟩ := turns
    obtain ⟨going', taken, inbox⟩ := going.three_turns
    rw [← inbox]
    exact going'.turns_of_written later taken

end Pump

end Sequencer
