import Sequencer.Proofs.Ensemble
import Sequencer.Proofs.Player.Finished
import Sequencer.Proofs.Player.Restart

/-!
# The divider spreads frames out

How many frames are left out behind one that runs the channels is settled when it runs them.
Setting another number has no effect on the countdown under way, and none on the channels, so
players with different settings give the same in the frames that run the channels, at other times.

* `Player.through` — a player after commands.  `Player.through_of_count_le` follows a countdown.
* `Player.timeless` — a player without its countdown and the length of it.
* `Player.turns` — what the frames that run the channels hand out and leave.
  `Player.turns_eq` is the run: they are the frames of a player that leaves none out.
* `Player.spread_by_divider` — when the channels run, and that nothing else hangs on it.
-/

namespace Sequencer

namespace Player

/-- The player after commands. -/
def through (player : Player) (commands : List PlayerCommand) : Player :=
  commands.foldl (fun player command => (player.perform command).1) player

theorem through_cons (player : Player) (command : PlayerCommand) (later : List PlayerCommand) :
    player.through (command :: later) = (player.perform command).1.through later :=
  rfl

/-- The player without its countdown and the length of it. -/
def timeless (player : Player) : Player :=
  { player with config.framesPerTick := 0, frameCounter := 0 }

variable {player : Player} {commands : List PlayerCommand}

/-- Whether the next frame gives each channel a frame and hands out what they ask for. -/
def RunsChannels (player : Player) : Prop :=
  player.frame.1.channels = player.channels.map (fun channel => (channel.frame player.bytecode).1) ∧
    player.frame.2 =
      player.pending ++ player.channels.flatMap fun channel => (channel.frame player.bytecode).2

theorem runsChannels_of_dispatches (dispatching : player.dispatches 0 = true) :
    player.RunsChannels := by
  have ready : ¬0 < player.frameCounter := dispatches_iff.mp dispatching
  simp [RunsChannels, player.frame_eq ready]

/-- Such a frame does not depend on the number of frames to leave out. -/
theorem frame_of_dispatches (dispatching : player.dispatches 0 = true) :
    player.frame.2 = player.timeless.frame.2 ∧ player.frame.1.timeless = player.timeless.frame.1 ∧
      player.frame.1.frameCounter = player.config.framesPerTick := by
  have ready : ¬0 < player.frameCounter := dispatches_iff.mp dispatching
  have always : ¬0 < player.timeless.frameCounter := by simp [timeless]
  rw [player.frame_eq ready, player.timeless.frame_eq always]
  exact ⟨rfl, rfl, rfl⟩

/-- As long as the countdown lasts, each frame takes one off it, whatever is set in between, and
neither the countdown nor a setting changes anything else. -/
theorem through_of_count_le (continues : ∀ command ∈ commands, command.continues = true)
    (le : commands.count .frame ≤ player.frameCounter.toNat) :
    (player.through commands).frameCounter.toNat + commands.count .frame =
        player.frameCounter.toNat ∧
      (player.through commands).timeless = player.timeless := by
  induction commands generalizing player with
  | nil => exact ⟨rfl, rfl⟩
  | cons command later ih =>
    obtain ⟨goesOn, goOn⟩ := List.forall_mem_cons.mp continues
    rw [through_cons]
    cases command with
    | load | run | stop => cases goesOn
    | frame =>
      rw [List.count_cons_self] at le ⊢
      have counting : 0 < player.frameCounter := by
        rw [UInt16.lt_iff_toNat_lt, UInt16.toNat_zero]
        omega
      have counted := toNat_sub_one counting
      rw [perform, frame_of_counting counting]
      have fewer : later.count .frame ≤ (player.frameCounter - 1).toNat := by omega
      obtain ⟨left, same⟩ := @ih { player with frameCounter := player.frameCounter - 1 } goOn fewer
      exact ⟨by rw [← Nat.add_assoc, left, counted], same⟩
    | setFramesPerTick frames =>
      rw [List.count_cons_of_ne (by simp)] at le ⊢
      exact ih goOn le

/-! ## The frames that run the channels -/

/-- For each frame among the commands that runs the channels, the cues it hands out and the
channels it leaves. -/
def turns (player : Player) : List PlayerCommand → List (List Cue × List Channel)
  | [] => []
  | command :: later =>
    let (next, cues) := player.perform command
    let rest := next.turns later
    if command = .frame ∧ player.dispatches 0 then (cues, next.channels) :: rest else rest

/-- They are the frames of a player that leaves none out. -/
theorem turns_eq (continues : ∀ command ∈ commands, command.continues = true) :
    player.turns commands =
      (List.range (player.turns commands).length).map fun turn =>
        (player.timeless.cuesAt turn, (player.timeless.after (turn + 1)).channels) := by
  induction commands generalizing player with
  | nil => rfl
  | cons command later ih =>
    obtain ⟨goesOn, goOn⟩ := List.forall_mem_cons.mp continues
    cases command with
    | load | run | stop => cases goesOn
    | setFramesPerTick frames => exact @ih (player.setFramesPerTick frames) goOn
    | frame =>
      by_cases dispatching : player.dispatches 0 = true
      · obtain ⟨cues, next, -⟩ := frame_of_dispatches dispatching
        have turns : player.turns (.frame :: later) =
            (player.frame.2, player.frame.1.channels) :: player.frame.1.turns later := by
          simp [Player.turns, perform, dispatching]
        have channels : player.frame.1.channels = player.timeless.frame.1.channels := by
          rw [← next]
          rfl
        have further := @ih player.frame.1 goOn
        rw [next] at further
        rw [turns, List.length_cons, List.range_succ_eq_map, List.map_cons, List.map_map, cues,
          channels]
        exact congrArg _ further
      · have counting : 0 < player.frameCounter := by
          by_contra ready
          exact dispatching (dispatches_iff.mpr ready)
        have turns : player.turns (.frame :: later) = player.frame.1.turns later := by
          simp [Player.turns, perform, dispatching]
        rw [turns, frame_of_counting counting]
        exact @ih { player with frameCounter := player.frameCounter - 1 } goOn

/-- Two players that differ in their countdown and in the length of it only run the channels alike,
though one of them may not have come as far. -/
theorem turns_prefix_of_timeless_eq {other : Player} {commands' : List PlayerCommand}
    (same : player.timeless = other.timeless)
    (continues : ∀ command ∈ commands, command.continues = true)
    (continues' : ∀ command ∈ commands', command.continues = true)
    (le : (player.turns commands).length ≤ (other.turns commands').length) :
    player.turns commands <+: other.turns commands' := by
  obtain ⟨more, length⟩ := Nat.exists_eq_add_of_le le
  rw [turns_eq continues, turns_eq continues', same, length, List.range_add, List.map_append]
  exact List.prefix_append _ _

/-- What is set decides when the channels run, and nothing else.  The first frame of a player that
has been told to run runs them.  Behind each frame that does there are as many others as were set at
that moment, whatever is set meanwhile; those give no cue and touch no channel, and the next one
runs the channels again.  Under any two schedules of settings these frames give the same cues and
leave the same channels, one after the other. -/
theorem spread_by_divider (player : Player) :
    (∀ before, (∀ command ∈ before, command.continues = true) → before.count .frame = 0 →
      (player.run.through before).dispatches 0 = true ∧
        (player.run.through before).RunsChannels) ∧
    (∀ before between, (∀ command ∈ before, command.continues = true) →
      (∀ command ∈ between, command.continues = true) →
      let here := player.run.through before
      let there := here.frame.1.through between
      here.dispatches 0 = true → between.count .frame ≤ here.config.framesPerTick.toNat →
        there.channels = here.frame.1.channels ∧
        (between.count .frame < here.config.framesPerTick.toNat →
          there.dispatches 0 = false ∧ there.frame.1.channels = there.channels ∧
            there.frame.2 = []) ∧
        (between.count .frame = here.config.framesPerTick.toNat →
          there.dispatches 0 = true ∧ there.RunsChannels)) ∧
    ∀ setting setting' schedule schedule', (∀ command ∈ schedule, command.continues = true) →
      (∀ command ∈ schedule', command.continues = true) →
      let turns := (player.setFramesPerTick setting).run.turns schedule
      let turns' := (player.setFramesPerTick setting').run.turns schedule'
      turns <+: turns' ∨ turns' <+: turns := by
  have due {later : Player} (zero : later.frameCounter.toNat = 0) :
      later.dispatches 0 = true ∧ later.RunsChannels := by
    have dispatching : later.dispatches 0 = true := by
      rw [dispatches_iff, UInt16.lt_iff_toNat_lt]
      exact Nat.not_lt.mpr (Nat.le_of_eq zero)
    exact ⟨dispatching, runsChannels_of_dispatches dispatching⟩
  refine ⟨?_, ?_, ?_⟩
  · intro before continues none
    have start : player.run.frameCounter.toNat = 0 := rfl
    obtain ⟨left, -⟩ := @through_of_count_le player.run before continues (by omega)
    exact due (by omega)
  · intro before between _ continues here there dispatching le
    obtain ⟨-, -, countdown⟩ := frame_of_dispatches dispatching
    rw [← countdown] at le ⊢
    obtain ⟨left, same⟩ : there.frameCounter.toNat + between.count .frame =
        here.frame.1.frameCounter.toNat ∧ there.timeless = here.frame.1.timeless :=
      through_of_count_le continues le
    refine ⟨congrArg (·.channels) same, fun lt => ?_, fun passed => due (by omega)⟩
    have counting : 0 < there.frameCounter := by
      rw [UInt16.lt_iff_toNat_lt, UInt16.toNat_zero]
      omega
    have waiting : there.dispatches 0 = false := by
      rw [Bool.eq_false_iff, Ne, dispatches_iff, not_not]
      exact counting
    rw [frame_of_counting counting]
    exact ⟨waiting, rfl, rfl⟩
  · intro setting setting' schedule schedule' continues continues' turns turns'
    have same : (player.setFramesPerTick setting).run.timeless =
        (player.setFramesPerTick setting').run.timeless := rfl
    obtain le | le := Nat.le_total turns.length turns'.length
    · exact .inl (turns_prefix_of_timeless_eq same continues continues' le)
    · exact .inr (turns_prefix_of_timeless_eq same.symm continues' continues le)

/-- Settings that change while two frames are left out. -/
def changingSettings : List PlayerCommand :=
  [.setFramesPerTick 0, .frame, .setFramesPerTick 7]

theorem spread_changingSettings :
    let player := ({} : Player).load busySong
    let here := player.run.through [.setFramesPerTick 2]
    let schedule := .setFramesPerTick 2 :: .frame :: (changingSettings ++ [.frame, .frame])
    let turns := (player.setFramesPerTick 1).run.turns schedule
    let turns' := (player.setFramesPerTick 0).run.turns [.frame, .frame, .frame]
    (here.dispatches 0 = true ∧ here.RunsChannels) ∧
    ((here.frame.1.through changingSettings).dispatches 0 = false ∧
      (here.frame.1.through changingSettings).frame.2 = []) ∧
    (here.frame.1.through (changingSettings ++ [.frame])).RunsChannels ∧
    turns.length = 2 ∧ (turns <+: turns' ∨ turns' <+: turns) := by
  intro player here schedule turns turns'
  obtain ⟨first, others, alike⟩ := spread_by_divider player
  have start := first [.setFramesPerTick 2] (by decide) (by decide)
  obtain ⟨-, silent, -⟩ := others [.setFramesPerTick 2] changingSettings (by decide) (by decide)
    start.1 (by decide)
  obtain ⟨-, -, again⟩ := others [.setFramesPerTick 2] (changingSettings ++ [.frame]) (by decide)
    (by decide) start.1 (by decide)
  obtain ⟨waiting, -, nothing⟩ := silent (by decide)
  exact ⟨start, ⟨waiting, nothing⟩, (again (by decide)).2, by decide,
    alike 1 0 schedule [.frame, .frame, .frame] (by decide) (by decide)⟩

end Player

end Sequencer
