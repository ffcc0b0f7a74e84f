import Sequencer.Pump

/-!
# The pump and its host

The host and the pump take their steps independently, so a list of actions of both sides
is one of the ways in which the two may interleave.

* `Pump.after` — the pump after actions of both sides.
* `Pump.Hosts` — what the host does: it writes one song and sends one `run`, and may
  end the pump at any time.
* `Pump.Begun`, `Pump.iterations` — whether the pump has taken both, and how often it
  has gone round.
* `Pump.takeMessage_cases`, `Pump.runFrame_cases` — what the turns of the pump can do.
-/

namespace Sequencer

/-! ## What the host does -/

/-- Whether an action gives the pump a song or tells it to run or to stop. -/
def PumpAction.starts : PumpAction → Bool
  | .write _ | .send .run | .send .stop => true
  | .send .shutdown | .disconnect | .dropCues | .turn => false

namespace Pump

/-- The pump after actions of both sides. -/
def after (config : PlayerConfig) (actions : List PumpAction) : Pump :=
  actions.foldl perform (ofConfig config)

@[simp] theorem after_append_singleton (config : PlayerConfig) (actions : List PumpAction)
    (action : PumpAction) :
    after config (actions ++ [action]) = (after config actions).perform action := by
  simp [after]

/-- The host writes the song and sends `run`, once each and in either order.  Whenever it likes it
may also send a shutdown, drop its end of the inbox or stop listening. -/
def Hosts (song : Song) (actions : List PumpAction) : Prop :=
  actions.filter PumpAction.starts <+: [.write song, .send .run] ∨
    actions.filter PumpAction.starts <+: [.send .run, .write song]

instance (song : Song) (actions : List PumpAction) : Decidable (Hosts song actions) :=
  inferInstanceAs (Decidable (_ ∨ _))

variable {config : PlayerConfig} {song : Song} {actions : List PumpAction} {action : PumpAction}

theorem Hosts.of_append {later : List PumpAction} (hosts : Hosts song (actions ++ later)) :
    Hosts song actions := by
  have shorter : actions.filter PumpAction.starts <+:
      (actions ++ later).filter PumpAction.starts := by
    rw [List.filter_append]
    exact List.prefix_append _ _
  exact hosts.imp shorter.trans shorter.trans

theorem last_of_prefix_pair {α : Type} {front : List α} {last first second : α}
    (pre : front ++ [last] <+: [first, second]) :
    front = [] ∧ last = first ∨ front = [first] ∧ last = second := by
  obtain ⟨rest, whole⟩ := pre
  match front with
  | [] => exact .inl ⟨rfl, by simpa using (List.cons.inj whole).1⟩
  | [other] =>
    simp only [List.cons_append, List.nil_append, List.cons.injEq] at whole
    exact .inr ⟨by rw [whole.1], whole.2.1⟩
  | _ :: _ :: _ => simp at whole

/-- Nothing is started twice, and nothing else. -/
theorem Hosts.last (hosts : Hosts song (actions ++ [action])) :
    action = .write song ∧ .write song ∉ actions ∨
      action = .send .run ∧ .send .run ∉ actions ∨ action.starts = false := by
  cases starts : action.starts with
  | false => exact .inr (.inr rfl)
  | true =>
    have split : (actions ++ [action]).filter PumpAction.starts =
        actions.filter PumpAction.starts ++ [action] := by
      simp [List.filter_append, starts]
    have absent : ∀ other : PumpAction, other.starts = true →
        other ∉ actions.filter PumpAction.starts → other ∉ actions :=
      fun other starts absent member => absent (List.mem_filter.mpr ⟨member, starts⟩)
    rw [Hosts, split] at hosts
    obtain order | order := hosts <;>
      obtain ⟨before, rfl⟩ | ⟨before, rfl⟩ := last_of_prefix_pair order
    · exact .inl ⟨rfl, absent _ rfl (by simp [before])⟩
    · exact .inr (.inl ⟨rfl, absent _ rfl (by simp [before])⟩)
    · exact .inr (.inl ⟨rfl, absent _ rfl (by simp [before])⟩)
    · exact .inl ⟨rfl, absent _ rfl (by simp [before])⟩
/-! ## Taking both -/

/-- The song has been written and `run` has been sent, and the pump has taken both. -/
def Begun (config : PlayerConfig) (song : Song) (actions : List PumpAction) : Prop :=
  (.write song ∈ actions ∧ (after config actions).written = none) ∧
    (.send .run ∈ actions ∧ .run ∉ (after config actions).inbox)

instance (config : PlayerConfig) (song : Song) (actions : List PumpAction) :
    Decidable (Begun config song actions) :=
  inferInstanceAs (Decidable ((_ ∧ _) ∧ (_ ∧ _)))

/-- Whether an action is the last turn of an iteration, in which the cues of a frame are sent. -/
def completes (pump : Pump) (action : PumpAction) : Bool :=
  action = .turn ∧ pump.stage = .frame ∧ (pump.perform action).stage = .song

/-- The number of iterations that end during the actions. -/
def iterations : Pump → List PumpAction → Nat
  | _, [] => 0
  | pump, action :: actions =>
    (pump.completes action).toNat + iterations (pump.perform action) actions

/-- Everything that taking a message can do, for each message and for an empty inbox. -/
theorem takeMessage_cases (pump : Pump) :
    pump.takeMessage.inbox = pump.inbox.tail ∧ pump.takeMessage.written = pump.written ∧
      pump.takeMessage.connected = pump.connected ∧
      pump.takeMessage.listening = pump.listening ∧ pump.takeMessage.sent = pump.sent ∧
      (pump.inbox = [] ∧ pump.takeMessage.player = pump.player ∧
          pump.takeMessage.stage = (if pump.connected then .frame else .ended) ∨
        (∃ rest, pump.inbox = .run :: rest) ∧ pump.takeMessage.player = pump.player.run ∧
          pump.takeMessage.stage = .frame ∨
        (∃ rest, pump.inbox = .stop :: rest) ∧ pump.takeMessage.player = pump.player.stop ∧
          pump.takeMessage.stage = .frame ∨
        (∃ rest, pump.inbox = .shutdown :: rest) ∧ pump.takeMessage.player = pump.player ∧
          pump.takeMessage.stage = .ended) := by
  unfold takeMessage
  split
  next rest messages => simp [messages]
  next rest messages => simp [messages]
  next rest messages => simp [messages]
  next messages => simp [messages]

/-- Everything a frame of the pump can do: its cues are sent, or nobody takes them. -/
theorem runFrame_cases (pump : Pump) :
    pump.runFrame.player = pump.player.frame.1 ∧ pump.runFrame.written = pump.written ∧
      pump.runFrame.inbox = pump.inbox ∧ pump.runFrame.connected = pump.connected ∧
      pump.runFrame.listening = pump.listening ∧
      (pump.runFrame.stage = .song ∧ pump.runFrame.sent = pump.sent ++ pump.player.frame.2 ∨
        pump.runFrame.stage = .ended ∧ pump.runFrame.sent = pump.sent ∧
          pump.listening = false) := by
  unfold runFrame
  by_cases listening : pump.listening = true
  · simp [listening]
  · by_cases nothing : pump.player.frame.2 = []
    · simp [listening, nothing]
    · simp [listening, nothing]

theorem iterations_append_singleton (pump : Pump) (actions : List PumpAction)
    (action : PumpAction) :
    iterations pump (actions ++ [action]) =
      iterations pump actions + ((actions.foldl Pump.perform pump).completes action).toNat := by
  induction actions generalizing pump with
  | nil => simp [iterations]
  | cons first actions ih =>
    simp only [List.cons_append, iterations, ih, List.foldl_cons, Nat.add_assoc]

end Pump

end Sequencer
