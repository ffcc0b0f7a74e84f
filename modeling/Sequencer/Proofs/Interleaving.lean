import Sequencer.Proofs.Player
import Sequencer.Proofs.Pump.Progress

/-!
# When a host's song and its `run` reach the pump

A host writes a song and tells the pump to run.  The pump may take either of them
first, and run any number of frames before, between and after that.  Whatever the
order, it then plays the song from its first frame, just as a player that is given the
song and told to run.

* `Pump.Waiting`, `Pump.Playing` — the invariants before and after it has taken both.
* `Pump.begun_of_turns`, `Pump.progress_of_lasting` — it takes both in three turns at most,
  and goes round as long as nothing ends it.
* `Pump.sent_of_hosts` — the cues sent at any moment.
-/

namespace Sequencer

/-! ## Players that wait for a song or to be told to run -/

namespace Player

/-- A player that was given the song or told to run, but not both.  Whatever countdown is under way,
none of its channels plays. -/
structure Idle (config : PlayerConfig) (song : Song) (loaded running : Bool) (player : Player) :
    Prop where
  configured : player.config = config
  nothingPending : player.pending = []
  playing : player.playing = running
  channels : player.channels = if loaded then channelsOf config song else []
  bytecode : loaded = true → player.bytecode = song.bytecode
  incomplete : ¬(loaded = true ∧ running = true)

variable {config : PlayerConfig} {song : Song} {loaded running : Bool} {player : Player}

theorem Idle.halted (idle : Idle config song loaded running player) {channel : Channel}
    (member : channel ∈ player.channels) : channel.track.state.halted = true := by
  rw [idle.channels] at member
  split at member
  · exact halted_of_mem_channelsOf member
  · cases member

/-- Frames of an idle player change its countdown only. -/
theorem Idle.frame (idle : Idle config song loaded running player) :
    Idle config song loaded running player.frame.1 ∧ player.frame.2 = [] := by
  rw [frame_of_halted idle.nothingPending fun channel member => idle.halted member]
  exact ⟨⟨idle.configured, idle.nothingPending, idle.playing, idle.channels, idle.bytecode,
    idle.incomplete⟩, rfl⟩

/-- A song that comes second is started, whatever the countdown was. -/
theorem Idle.load (idle : Idle config song false running player) :
    running = true ∧ player.load song = started config song ∨
      running = false ∧ Idle config song true false (player.load song) := by
  obtain ⟨rfl, -, playing, -, -, -⟩ := idle
  cases running with
  | true => exact .inl ⟨rfl, load_of_playing playing song⟩
  | false =>
    rw [load_of_stopped playing]
    exact .inr ⟨rfl, rfl, rfl, playing, rfl, fun _ => rfl, by simp⟩

/-- Being told to run second starts the song, whatever the countdown was. -/
theorem Idle.run (idle : Idle config song loaded false player) :
    loaded = true ∧ player.run = started config song ∨
      loaded = false ∧ Idle config song false true player.run := by
  obtain ⟨rfl, nothing, playing, channels, bytecode, -⟩ := idle
  cases loaded with
  | true => exact .inl ⟨rfl, run_of_loaded nothing (bytecode rfl) (by rw [channels]; rfl)⟩
  | false =>
    refine .inr ⟨rfl, rfl, nothing, rfl, ?_, by simp, by simp⟩
    simp [Player.run, channels]

end Player
namespace Pump

variable {config : PlayerConfig} {song : Song} {actions : List PumpAction} {action : PumpAction}

/-! ## Before both have been taken -/

/-- The pump has sent nothing, and what the host has done so far has been taken or waits to be. -/
structure Waiting (config : PlayerConfig) (song : Song) (wrote ran : Prop) (loaded running : Bool)
    (pump : Pump) : Prop where
  idle : pump.player.Idle config song loaded running
  sent : pump.sent = []
  slot : pump.written = none ∧ (wrote ↔ loaded = true) ∨
    pump.written = some song ∧ wrote ∧ loaded = false
  inbox : .run ∉ pump.inbox ∧ (ran ↔ running = true) ∨
    .run ∈ pump.inbox ∧ ran ∧ running = false
  once : pump.inbox.count .run ≤ 1
  goesOn : .stop ∉ pump.inbox

/-- The pump has played the song for a number of frames, unless it has ended. -/
structure Playing (config : PlayerConfig) (song : Song) (count : Nat) (pump : Pump) : Prop where
  sent : pump.sent = (List.range count).flatMap (Player.started config song).cuesAt
  player : pump.stage = .ended ∨ pump.player = (Player.started config song).after count
  written : pump.written = none
  inbox : .run ∉ pump.inbox
  goesOn : .stop ∉ pump.inbox

variable {wrote ran : Prop} {loaded running : Bool} {pump : Pump}

theorem Waiting.takeSong (waiting : Waiting config song wrote ran loaded running pump) :
    (∃ loaded, Waiting config song wrote ran loaded running pump.takeSong) ∨
      Playing config song 0 pump.takeSong ∧ wrote ∧ ran := by
  obtain ⟨idle, sent, slot, inbox, once, goesOn⟩ := waiting
  obtain ⟨written, taken⟩ | ⟨written, wrote, rfl⟩ := slot
  · refine .inl ⟨loaded, ?_⟩
    simp only [Pump.takeSong, written]
    exact ⟨idle, sent, .inl ⟨rfl, taken⟩, inbox, once, goesOn⟩
  · simp only [Pump.takeSong, written]
    obtain ⟨rfl, started⟩ | ⟨rfl, parked⟩ := idle.load
    · obtain ⟨absent, ran⟩ | ⟨-, -, impossible⟩ := inbox
      · exact .inr ⟨⟨sent, .inr started, rfl, absent, goesOn⟩, wrote, ran.mpr rfl⟩
      · cases impossible
    · exact .inl ⟨true, parked, sent, .inl ⟨rfl, by simp [wrote]⟩, inbox, once, goesOn⟩

theorem Waiting.takeMessage (waiting : Waiting config song wrote ran loaded running pump) :
    (∃ running, Waiting config song wrote ran loaded running pump.takeMessage) ∨
      Playing config song 0 pump.takeMessage ∧ wrote ∧ ran := by
  obtain ⟨idle, sent, slot, inbox, once, goesOn⟩ := waiting
  match messages : pump.inbox with
  | [] =>
    simp only [messages, Pump.takeMessage] at inbox once goesOn ⊢
    exact .inl ⟨running, idle, sent, slot, inbox, once, goesOn⟩
  | .stop :: rest => simp [messages] at goesOn
  | .shutdown :: rest =>
    simp only [messages, Pump.takeMessage] at inbox once goesOn ⊢
    refine .inl ⟨running, idle, sent, slot, ?_, ?_, ?_⟩
    · simpa using inbox
    · simpa using once
    · simpa using goesOn
  | .run :: rest =>
    simp only [messages, Pump.takeMessage] at inbox once goesOn ⊢
    obtain ⟨absent, -⟩ | ⟨-, ran, rfl⟩ := inbox
    · simp at absent
    -- there was one such message
    have gone : .run ∉ rest := by
      rw [List.count_cons_self] at once
      exact List.count_eq_zero.mp (by omega)
    have goesOn : .stop ∉ rest := fun member => goesOn (List.mem_cons_of_mem _ member)
    obtain ⟨rfl, started⟩ | ⟨rfl, unloaded⟩ := idle.run
    · obtain ⟨written, wrote⟩ | ⟨-, -, impossible⟩ := slot
      · exact .inr ⟨⟨sent, .inr started, written, gone, goesOn⟩, wrote.mpr rfl, ran⟩
      · cases impossible
    · exact .inl ⟨true, unloaded, sent, slot, .inl ⟨gone, by simp [ran]⟩,
        by simp [List.count_eq_zero.mpr gone], goesOn⟩

theorem Waiting.runFrame (waiting : Waiting config song wrote ran loaded running pump) :
    Waiting config song wrote ran loaded running pump.runFrame := by
  obtain ⟨idle, sent, slot, inbox, once, goesOn⟩ := waiting
  obtain ⟨idle', silent⟩ := idle.frame
  obtain ⟨player, written, messages, -, -, ⟨-, sent'⟩ | ⟨-, sent', -⟩⟩ := pump.runFrame_cases
  all_goals
    rw [← written] at slot
    rw [← messages] at inbox once goesOn
    rw [← player] at idle'
    refine ⟨idle', ?_, slot, inbox, once, goesOn⟩
  · rw [sent', sent, silent]
    rfl
  · rw [sent', sent]

/-- A turn takes at most one of the two. -/
theorem Waiting.turn (waiting : Waiting config song wrote ran loaded running pump) :
    (∃ loaded running, Waiting config song wrote ran loaded running pump.turn) ∨
      Playing config song 0 pump.turn ∧ wrote ∧ ran := by
  unfold Pump.turn
  cases pump.stage with
  | song => exact waiting.takeSong.imp_left fun ⟨loaded, still⟩ => ⟨loaded, running, still⟩
  | message => exact waiting.takeMessage.imp_left fun ⟨running, still⟩ => ⟨loaded, running, still⟩
  | frame => exact .inl ⟨loaded, running, waiting.runFrame⟩
  | ended => exact .inl ⟨loaded, running, waiting⟩

/-- What the host does to end the pump, or to start it, waits to be taken. -/
theorem Waiting.host (waiting : Waiting config song wrote ran loaded running pump)
    (other : action ≠ .turn) {wrote' ran' : Prop}
    (last : action = .write song ∧ ¬wrote ∧ wrote' ∧ (ran' ↔ ran) ∨
      action = .send .run ∧ ¬ran ∧ ran' ∧ (wrote' ↔ wrote) ∨
      action.starts = false ∧ (wrote' ↔ wrote) ∧ (ran' ↔ ran)) :
    Waiting config song wrote' ran' loaded running (pump.perform action) := by
  obtain ⟨idle, sent, slot, inbox, once, goesOn⟩ := waiting
  obtain ⟨rfl, unwritten, written, same⟩ | ⟨rfl, unsent, isSent, same⟩ | ⟨ends, same, same'⟩ := last
  · obtain ⟨-, taken⟩ | ⟨-, wrote, -⟩ := slot
    · have unloaded : loaded = false := by simpa using mt taken.mpr unwritten
      exact ⟨idle, sent, .inr ⟨rfl, written, unloaded⟩, by rw [same]; exact inbox, once, goesOn⟩
    · exact absurd wrote unwritten
  · obtain ⟨absent, taken⟩ | ⟨-, ran, -⟩ := inbox
    · have stopped : running = false := by simpa using mt taken.mpr unsent
      refine ⟨idle, sent, by rw [same]; exact slot, .inr ⟨?_, isSent, stopped⟩, ?_, ?_⟩
      · simp [Pump.perform]
      · simp [Pump.perform, List.count_append, List.count_eq_zero.mpr absent]
      · simpa [Pump.perform] using goesOn
    · exact absurd ran unsent
  · rw [← same] at slot
    rw [← same'] at inbox
    cases action with
    | turn => exact absurd rfl other
    | disconnect | dropCues => exact ⟨idle, sent, slot, inbox, once, goesOn⟩
    | write other => cases ends
    | send message =>
      cases message with
      | run | stop => cases ends
      | shutdown =>
        refine ⟨idle, sent, slot, ?_, ?_, ?_⟩
        · simpa [Pump.perform] using inbox
        · simpa [Pump.perform, List.count_append] using once
        · simpa [Pump.perform] using goesOn

theorem Waiting.not_begun
    (waiting : Waiting config song (.write song ∈ actions) (.send .run ∈ actions) loaded running
      (after config actions)) : ¬Begun config song actions := by
  obtain ⟨idle, -, slot, inbox, -, -⟩ := waiting
  rintro ⟨⟨wrote, none⟩, ran, absent⟩
  obtain ⟨-, taken⟩ | ⟨written, -, -⟩ := slot
  · obtain ⟨-, taken'⟩ | ⟨present, -, -⟩ := inbox
    · exact idle.incomplete ⟨taken.mp wrote, taken'.mp ran⟩
    · exact absent present
  · rw [none] at written
    cases written

/-! ## Afterwards -/

variable {count : Nat}

/-- A frame sends the cues of the next frame of the song, or ends the pump. -/
theorem Playing.runFrame (playing : Playing config song count pump) (atFrame : pump.stage = .frame) :
    Playing config song (count + (decide (pump.runFrame.stage = .song)).toNat) pump.runFrame := by
  obtain ⟨sent, player, written, inbox, goesOn⟩ := playing
  have player : pump.player = (Player.started config song).after count := by
    rw [atFrame] at player
    exact player.resolve_left (by simp)
  obtain ⟨player', written', messages, -, -, ⟨stage, sent'⟩ | ⟨stage, sent', -⟩⟩ :=
    pump.runFrame_cases
  all_goals
    rw [stage]
    refine ⟨?_, ?_, written'.trans written, messages ▸ inbox, messages ▸ goesOn⟩
  · simp [sent', sent, player, List.range_succ, Player.cuesAt]
  · refine .inr ?_
    simp [player', player, Player.after_succ]
  · simp [sent', sent]
  · exact .inl stage

/-- There is nothing left to take but what ends the pump. -/
theorem Playing.turn (playing : Playing config song count pump) :
    Playing config song (count + (pump.completes .turn).toNat) pump.turn := by
  cases stage : pump.stage with
  | frame =>
    have same : pump.turn = pump.runFrame := by rw [Pump.turn, stage]
    simpa [completes, stage, Pump.perform, same] using playing.runFrame stage
  | song =>
    have unfinished : pump.completes .turn = false := by simp [completes, stage]
    obtain ⟨sent, player, written, inbox, goesOn⟩ := playing
    have going : pump.player = (Player.started config song).after count :=
      player.resolve_left (by simp [stage])
    simp only [unfinished, Pump.turn, stage, Pump.takeSong, written]
    exact ⟨sent, .inr going, rfl, inbox, goesOn⟩
  | message =>
    have unfinished : pump.completes .turn = false := by simp [completes, stage]
    obtain ⟨sent, player, written, inbox, goesOn⟩ := playing
    have going : pump.player = (Player.started config song).after count :=
      player.resolve_left (by simp [stage])
    simp only [unfinished, Pump.turn, stage]
    obtain ⟨messages, written', -, -, sent', next⟩ := pump.takeMessage_cases
    have same : pump.takeMessage.player = pump.player := by
      obtain ⟨-, same, -⟩ | ⟨⟨rest, waiting⟩, -⟩ | ⟨⟨rest, waiting⟩, -⟩ | ⟨-, same, -⟩ := next
      · exact same
      · exact absurd (waiting ▸ List.mem_cons_self) inbox
      · exact absurd (waiting ▸ List.mem_cons_self) goesOn
      · exact same
    exact ⟨sent'.trans sent, .inr (same.trans going), written'.trans written,
      fun member => inbox (List.mem_of_mem_tail (messages ▸ member)),
      fun member => goesOn (List.mem_of_mem_tail (messages ▸ member))⟩
  | ended =>
    have unfinished : pump.completes .turn = false := by simp [completes, stage]
    simp only [unfinished, Pump.turn, stage]
    exact playing

theorem Playing.perform (playing : Playing config song count pump) (ends : action.starts = false) :
    Playing config song (count + (pump.completes action).toNat) (pump.perform action) := by
  cases action with
  | turn => exact playing.turn
  | disconnect | dropCues =>
    obtain ⟨sent, player, written, inbox, goesOn⟩ := playing
    exact ⟨sent, player, written, inbox, goesOn⟩
  | write other => cases ends
  | send message =>
    cases message with
    | run | stop => cases ends
    | shutdown =>
      obtain ⟨sent, player, written, inbox, goesOn⟩ := playing
      exact ⟨sent, player, written, by simpa [Pump.perform] using inbox,
        by simpa [Pump.perform] using goesOn⟩
theorem append_turn_subset (before since : List PumpAction) :
    before ++ [.turn] ⊆ before ++ .turn :: since := by
  rw [List.append_cons before .turn since]
  exact List.subset_append_left _ _

/-- At any moment the pump waits, or there was a turn in which it took the second of the two, and
since then it has played the song. -/
theorem waiting_or_playing (hosts : Hosts song actions) :
    (∃ loaded running, Waiting config song (.write song ∈ actions) (.send .run ∈ actions)
        loaded running (after config actions)) ∨
      ∃ before since, actions = before ++ .turn :: since ∧
        ¬Begun config song before ∧ Begun config song (before ++ [.turn]) ∧
        Playing config song (iterations (after config (before ++ [.turn])) since)
          (after config actions) := by
  -- on the actions, the last one last, since the host starts each thing once
  induction actions using List.reverseRecOn with
  | nil =>
    refine .inl ⟨false, false, ⟨rfl, rfl, rfl, rfl, by simp, by simp⟩, rfl, .inl ⟨rfl, by simp⟩,
      .inl ⟨List.not_mem_nil, by simp⟩, Nat.zero_le 1, List.not_mem_nil⟩
  | append_singleton actions action ih =>
    rw [after_append_singleton]
    obtain ⟨loaded, running, waiting⟩ | ⟨before, since, rfl, notYet, begun, playing⟩ :=
      ih hosts.of_append
    · by_cases turn : action = .turn
      · subst turn
        have same : ∀ other : PumpAction, other ≠ .turn →
            (other ∈ actions ++ [.turn] ↔ other ∈ actions) := by
          intro other different
          simp [different]
        obtain ⟨loaded, running, still⟩ | ⟨playing, wrote, ran⟩ := waiting.turn
        · refine .inl ⟨loaded, running, ?_⟩
          rw [same _ (by simp), same _ (by simp)]
          exact still
        · refine .inr ⟨actions, [], rfl, waiting.not_begun, ?_, playing⟩
          rw [Begun, after_append_singleton]
          exact ⟨⟨List.mem_append_left _ wrote, playing.written⟩, List.mem_append_left _ ran,
            playing.inbox⟩
      · refine .inl ⟨loaded, running, waiting.host turn ?_⟩
        obtain ⟨rfl, unwritten⟩ | ⟨rfl, unsent⟩ | ends := hosts.last
        · exact .inl ⟨rfl, unwritten, by simp, by simp⟩
        · exact .inr (.inl ⟨rfl, unsent, by simp, by simp⟩)
        · refine .inr (.inr ⟨ends, ?_, ?_⟩)
          · simp only [List.mem_append, List.mem_singleton, or_iff_left_iff_imp]
            rintro rfl
            cases ends
          · simp only [List.mem_append, List.mem_singleton, or_iff_left_iff_imp]
            rintro rfl
            cases ends
    · -- the host has nothing left to start
      have earlier := append_turn_subset before since
      have ends : action.starts = false := by
        obtain ⟨-, unwritten⟩ | ⟨-, unsent⟩ | ends := hosts.last
        · exact absurd (earlier begun.1.1) unwritten
        · exact absurd (earlier begun.2.1) unsent
        · exact ends
      refine .inr ⟨before, since ++ [action], by simp, notYet, begun, ?_⟩
      rw [iterations_append_singleton]
      have here : since.foldl Pump.perform (after config (before ++ [.turn])) =
          after config (before ++ .turn :: since) := by
        simp [after]
      rw [here]
      exact playing.perform ends
/-! ## Progress -/

/-- Once the host has started everything, there are only turns left unless it ends the pump. -/
theorem Hosts.eq_turn {since : List PumpAction} (hosts : Hosts song (actions ++ since))
    (wrote : .write song ∈ actions) (ran : .send .run ∈ actions)
    (lasting : ∀ action ∈ since, action.ends = false) : ∀ action ∈ since, action = .turn := by
  intro action member
  obtain ⟨before, later, rfl⟩ := List.append_of_mem member
  have whole : Hosts song (actions ++ before ++ [action] ++ later) := by simpa using hosts
  obtain ⟨-, unwritten⟩ | ⟨-, unsent⟩ | starts := whole.of_append.last
  · exact absurd (List.mem_append_left _ wrote) unwritten
  · exact absurd (List.mem_append_left _ ran) unsent
  · exact PumpAction.eq_turn starts (lasting action member)

/-- Behind the oldest message there is no `run`, unless the oldest one is a shutdown. -/
theorem run_notMem_tail (hosts : Hosts song actions) (going : Going (after config actions)) :
    .run ∉ (after config actions).inbox.tail := by
  obtain ⟨_, _, -, -, -, -, once, goesOn⟩ | ⟨_, _, -, -, -, playing⟩ :=
    @waiting_or_playing config song actions hosts
  · match messages : (after config actions).inbox with
    | [] => exact List.not_mem_nil
    | .stop :: rest => simp [messages] at goesOn
    | .shutdown :: rest => exact absurd (messages ▸ List.mem_cons_self) going.noShutdown
    -- there is one such message at most
    | .run :: rest =>
      rw [messages, List.count_cons_self] at once
      rw [List.tail_cons]
      exact List.count_eq_zero.mp (by omega)
  · exact mt List.mem_of_mem_tail playing.inbox

/-- Both are taken in three turns at most. -/
theorem begun_of_turns {since : List PumpAction} (hosts : Hosts song (actions ++ since))
    (wrote : .write song ∈ actions) (ran : .send .run ∈ actions)
    (lasting : ∀ action ∈ actions ++ since, action.ends = false)
    (enough : 3 ≤ since.count .turn) : Begun config song (actions ++ since) := by
  obtain ⟨before, later⟩ := List.forall_mem_append.mp lasting
  have going : Going (after config actions) := going_after before
  have long : 3 ≤ since.length := Nat.le_trans enough List.count_le_length
  obtain ⟨taken, rest⟩ := going.turns (hosts.eq_turn wrote ran later) long
  have gone := mt (rest.subset ·) (run_notMem_tail hosts.of_append going)
  have last : after config (actions ++ since) =
      since.foldl Pump.perform (after config actions) := by simp [after]
  rw [Begun, last]
  exact ⟨⟨List.mem_append_left _ wrote, taken⟩, List.mem_append_left _ ran, gone⟩

/-- As long as the host does not end the pump, every three turns make an iteration, and three turns
are enough to take the song and `run` once they are there. -/
theorem progress_of_lasting (config : PlayerConfig) (hosts : Hosts song actions)
    (lasting : ∀ action ∈ actions, action.ends = false) :
    ∀ before since, actions = before ++ since →
      3 * iterations (after config before) since + (after config actions).stage.turns =
        (after config before).stage.turns + since.count .turn ∧
      (.write song ∈ before → .send .run ∈ before → 3 ≤ since.count .turn →
        Begun config song actions) := by
  rintro before since rfl
  obtain ⟨first, later⟩ := List.forall_mem_append.mp lasting
  have last : after config (before ++ since) =
      since.foldl Pump.perform (after config before) := by simp [after]
  refine ⟨?_, fun wrote ran enough => begun_of_turns hosts wrote ran lasting enough⟩
  rw [last]
  exact (going_after first).iterations later

/-! ## The cues sent -/

/-- At any moment the cues sent are the first ones of a player that was given the song and told to
run.  Until the pump has taken both there are none; from the turn on that takes the second, every
iteration adds the cues of the next frame.  Only the host can end that.  As long as it does not,
three turns make an iteration, and three turns after both are there the pump has taken them. -/
theorem sent_of_hosts (config : PlayerConfig) (hosts : Hosts song actions) :
    let player := Player.started config song
    let pump := after config actions
    (∃ frames, pump.sent <+: (List.range frames).flatMap player.cuesAt) ∧
      (¬Begun config song actions → pump.sent = []) ∧
      (Begun config song actions → ∃ before since, actions = before ++ .turn :: since ∧
        ¬Begun config song before ∧ Begun config song (before ++ [.turn]) ∧
        pump.sent = (List.range (iterations (after config (before ++ [.turn])) since)).flatMap
          player.cuesAt) ∧
      (pump.stage = .ended →
        .send .shutdown ∈ actions ∨ .disconnect ∈ actions ∨ .dropCues ∈ actions) ∧
      ((∀ action ∈ actions, action.ends = false) →
        ∀ before since, actions = before ++ since →
          3 * iterations (after config before) since + pump.stage.turns =
            (after config before).stage.turns + since.count .turn ∧
          (.write song ∈ before → .send .run ∈ before → 3 ≤ since.count .turn →
            Begun config song actions)) := by
  intro player pump
  obtain ⟨loaded, running, waiting⟩ | ⟨before, since, split, notYet, begun, playing⟩ :=
    waiting_or_playing hosts
  · exact ⟨⟨0, waiting.sent ▸ List.nil_prefix⟩, fun _ => waiting.sent,
      fun begun => absurd begun waiting.not_begun, (accounted config actions).ended,
      progress_of_lasting config hosts⟩
  · have still : Begun config song actions := by
      have earlier := append_turn_subset before since
      rw [← split] at earlier
      exact ⟨⟨earlier begun.1.1, playing.written⟩, earlier begun.2.1, playing.inbox⟩
    exact ⟨⟨_, [], (List.append_nil _).trans playing.sent⟩, fun notBegun => absurd still notBegun,
      fun _ => ⟨before, since, split, notYet, begun, playing.sent⟩,
      (accounted config actions).ended, progress_of_lasting config hosts⟩

/-- The song `play(60)`. -/
def oneNote : Song :=
  ⟨#[0xE7, 60, 0xFF], [0]⟩

/-- The song arrives late: `run` has been taken in the iteration before. -/
def lateSong : List PumpAction :=
  List.replicate 3 .turn ++ .send .run :: List.replicate 4 .turn ++ .write oneNote ::
    List.replicate 11 .turn ++ .send .shutdown :: List.replicate 2 .turn

theorem sent_lateSong :
    Hosts oneNote lateSong ∧ Begun {} oneNote lateSong ∧
    (∃ before since, lateSong = before ++ .turn :: since ∧
      ¬Begun {} oneNote before ∧ Begun {} oneNote (before ++ [.turn]) ∧
      (after {} lateSong).sent =
        (List.range (iterations (after {} (before ++ [.turn])) since)).flatMap
          (Player.started {} oneNote).cuesAt) ∧
    (after {} lateSong).sent = [⟨0, 0, .play 60⟩, ⟨0, 0, .halt⟩] ∧
    (after {} lateSong).stage = .ended ∧ .send .shutdown ∈ lateSong ∧
    (∀ action ∈ lateSong.take 12, action.ends = false) ∧
    Begun {} oneNote (lateSong.take 9 ++ List.replicate 3 .turn) := by
  have hosts : Hosts oneNote lateSong := by decide
  have begun : Begun {} oneNote lateSong := by decide +kernel
  -- three turns after the song has been written
  have soon : Hosts oneNote (lateSong.take 12) := by decide
  have lasting : ∀ action ∈ lateSong.take 12, action.ends = false := by decide
  obtain ⟨-, taken⟩ := (sent_of_hosts {} soon).2.2.2.2 lasting (lateSong.take 9)
    (List.replicate 3 .turn) (by decide)
  exact ⟨hosts, begun, (sent_of_hosts {} hosts).2.2.1 begun, by decide +kernel, by decide +kernel,
    by decide, lasting, taken (by decide) (by decide) (by decide)⟩

end Pump

end Sequencer
