import Mathlib.Data.List.Induction
import Sequencer.Proofs.Channel
import Sequencer.Proofs.Track.Steps

/-!
# The packs of a channel's cues

An instrument is kept twice: in the state of the track that selects it, and with the channel
that tags the track's cues.  The two copies change at different moments, and agree whenever a
command is over.

* `TrackState.instrument_dispatch` — a frame leaves the instrument that its events select last.
* `Channel.Synced` — the copies agree with each other and with the cues sent since the track was
  last rewound.  `Channel.synced_record` is the step, `Channel.synced_recorded` the run.
* `Channel.packs_follow_instrument` — the packs of a channel and of its cues.
-/

namespace Sequencer

/-! ## The instrument selected last -/

/-- The instrument that an event selects. -/
def Event.instrument? : Event → Option UInt8
  | .instrument index => some index
  | .halt | .syscall _ | .play _ => none

/-- The instrument selected by the last event that selects one. -/
def lastInstrument? (events : List Event) : Option UInt8 :=
  (events.filterMap Event.instrument?).getLast?

theorem foldl_instrumentAfter (events : List Event) (selected : UInt8) :
    events.foldl Event.instrumentAfter selected = (lastInstrument? events).getD selected := by
  induction events using List.reverseRecOn with
  | nil => rfl
  | append_singleton events event ih =>
    rw [List.foldl_append, ih]
    cases event with
    | instrument index => simp [lastInstrument?, Event.instrument?, Event.instrumentAfter]
    | halt | syscall | play => simp [lastInstrument?, Event.instrument?, Event.instrumentAfter]

namespace TrackState

/-- An instruction changes the instrument just as the event it raises says. -/
theorem instrument_execute (arithmetic : Arithmetic) (state : TrackState)
    (instruction : Instruction) :
    (state.execute arithmetic instruction).1.instrument =
      (state.execute arithmetic instruction).2.toList.foldl Event.instrumentAfter
        state.instrument := by
  cases instruction with
  | jump condition target | repeatSection condition =>
    simp only [execute, branch, advance]
    split <;> rfl
  | _ => rfl

theorem instrument_iterate_next (arithmetic : Arithmetic) (fetch : UInt16 → Instruction)
    (count : Nat) (state : TrackState) :
    ((next arithmetic fetch)^[count] state).instrument =
      (state.heard arithmetic fetch count).foldl Event.instrumentAfter state.instrument := by
  induction count generalizing state with
  | zero => rfl
  | succ count ih =>
    rw [Function.iterate_succ_apply, ih, heard, List.foldl_append, ← instrument_execute]
    rfl

theorem instrument_dispatch (config : TrackConfig) (fetch : UInt16 → Instruction)
    (state : TrackState) :
    (state.dispatch config fetch).1.instrument =
      (state.dispatch config fetch).2.foldl Event.instrumentAfter state.instrument := by
  by_cases halted : state.halted = true
  · rw [(dispatch_of_halted config fetch halted).1]
    rfl
  have running : state.halted = false := by simpa using halted
  by_cases counting : 0 < state.tickCounter
  · rw [(dispatch_of_counting config fetch running counting).1]
    rfl
  by_cases pausing : 0 < state.waitCounter
  · rw [(dispatch_of_pausing config fetch running counting pausing).1]
    rfl
  · rw [(dispatch_of_ready config fetch running counting pausing).1]
    exact instrument_iterate_next _ _ _ _

end TrackState

/-! ## Commands -/

/-- What a host can do with a channel.  Every frame may have a buffer of its own. -/
inductive ChannelCommand where
  | frame (code : Bytecode)
  | start
  | restart
deriving Repr, DecidableEq, Inhabited

namespace Channel

/-- Carries out a command and takes down the cues.  Both ways to rewind begin a new record. -/
def record (state : Channel × List Cue) : ChannelCommand → Channel × List Cue
  | .frame code => ((state.1.frame code).1, state.2 ++ (state.1.frame code).2)
  | .start => (state.1.start, [])
  | .restart => (state.1.restart, [])

/-- A new channel after commands, with the cues it has sent since it was last rewound. -/
def recorded (index : Nat) (base : UInt16) (packCount : Nat) (config : TrackConfig)
    (commands : List ChannelCommand) : Channel × List Cue :=
  commands.foldl record (.parked index base packCount config, [])

/-- The pack of the instrument selected last, and the first pack if none has been. -/
def packBehind (packCount : Nat) (events : List Event) : Nat :=
  match lastInstrument? events with
  | some index => index.toNat % max packCount 1
  | none => 0

theorem packBehind_eq (packCount : Nat) (events : List Event) :
    packBehind packCount events = packOf packCount (events.foldl Event.instrumentAfter 0) := by
  rw [foldl_instrumentAfter, packBehind]
  cases lastInstrument? events with
  | none => exact (Nat.zero_mod _).symm
  | some index => rfl

/-- A cue has the pack of the instrument that is selected once its event has been heard. -/
theorem pack_of_cuesOf_eq_append {channel : Channel} {events : List Event} {front back : List Cue}
    {cue : Cue} (cues : channel.cuesOf events = front ++ cue :: back) :
    cue.pack = packOf channel.packCount
      (((front ++ [cue]).map Cue.event).foldl Event.instrumentAfter channel.selected) := by
  induction events generalizing channel front with
  | nil => simp at cues
  | cons event events ih =>
    rw [cuesOf_cons] at cues
    cases front with
    | nil =>
      obtain ⟨rfl, -⟩ := List.cons.inj cues
      rfl
    | cons first front =>
      obtain ⟨rfl, later⟩ := List.cons.inj cues
      have pack := ih later
      exact pack

/-- Whether the copies of the instrument agree with each other and with the cues that have been
sent since the track was rewound, which have the packs that go with it. -/
structure Synced (packCount : Nat) (channel : Channel) (sent : List Cue) : Prop where
  count : channel.packCount = packCount
  agrees : channel.selected = channel.track.state.instrument
  last : channel.selected = (sent.map Cue.event).foldl Event.instrumentAfter 0
  packs : ∀ front cue back, sent = front ++ cue :: back →
    cue.pack = packBehind packCount ((front ++ [cue]).map Cue.event)

variable {packCount : Nat} {channel : Channel} {sent : List Cue}

/-- Rewound, a track has the first instrument, and so has the channel. -/
theorem synced_restart (count : channel.packCount = packCount) :
    Synced packCount channel.restart [] :=
  ⟨count, rfl, rfl, by simp⟩

theorem Synced.frame (synced : Synced packCount channel sent) (code : Bytecode) :
    Synced packCount (channel.frame code).1 (sent ++ (channel.frame code).2) := by
  by_cases halted : channel.track.state.halted = true
  · simpa [frame_of_halted halted] using synced
  rw [frame_of_running (by simpa using halted)]
  refine ⟨by simpa using synced.count, ?_, ?_, fun front cue back split => ?_⟩
  · rw [selected_foldl_hearing, track_foldl_hearing, synced.agrees]
    exact (TrackState.instrument_dispatch _ _ _).symm
  · rw [selected_foldl_hearing, List.map_append, map_event_cuesOf, List.foldl_append, ← synced.last]
  · -- a cue is one of those sent before, or it is among those of this frame
    obtain ⟨more, rfl, later⟩ | ⟨more, earlier, rest⟩ := List.append_eq_append_iff.mp split
    · have pack := pack_of_cuesOf_eq_append later
      rw [packBehind_eq, List.append_assoc, List.map_append, List.foldl_append, ← synced.last, pack,
        ← synced.count]
    · cases more with
      | nil =>
        obtain rfl : sent = front := by simpa using earlier
        have pack := pack_of_cuesOf_eq_append (show _ = [] ++ cue :: back from rest.symm)
        rw [packBehind_eq, List.map_append, List.foldl_append, ← synced.last, pack, ← synced.count]
        rfl
      | cons first more =>
        obtain ⟨rfl, -⟩ := List.cons.inj rest
        exact synced.packs front cue more earlier

theorem synced_record (synced : Synced packCount channel sent) (command : ChannelCommand) :
    Synced packCount (record (channel, sent) command).1 (record (channel, sent) command).2 := by
  cases command with
  | frame code => exact synced.frame code
  | start =>
    obtain ⟨count, agrees, last, packs⟩ := synced_restart synced.count
    exact ⟨count, agrees, last, packs⟩
  | restart => exact synced_restart synced.count

theorem synced_recorded (index : Nat) (base : UInt16) (packCount : Nat) (config : TrackConfig)
    (commands : List ChannelCommand) :
    Synced packCount (recorded index base packCount config commands).1
      (recorded index base packCount config commands).2 := by
  induction commands using List.reverseRecOn with
  | nil => exact synced_restart rfl
  | append_singleton commands command ih =>
    rw [recorded, List.foldl_append]
    exact synced_record ih command

/-- Whatever has been done with a channel, its copy of the instrument is that of the track.  Its
pack is the one this instrument is folded onto, and every cue it has sent has the pack of the
instrument selected last since the track was rewound, be it by the cue's own event. -/
theorem packs_follow_instrument (index : Nat) (base : UInt16) (packCount : Nat)
    (config : TrackConfig) (commands : List ChannelCommand) :
    let (channel, sent) := recorded index base packCount config commands
    channel.selected = channel.track.state.instrument ∧
      channel.pack = channel.track.state.instrument.toNat % max packCount 1 ∧
      channel.pack < max packCount 1 ∧
      ∀ front cue back, sent = front ++ cue :: back →
        cue.pack = packBehind packCount ((front ++ [cue]).map Cue.event) := by
  have synced := synced_recorded index base packCount config commands
  generalize recorded index base packCount config commands = reached at synced ⊢
  obtain ⟨channel, sent⟩ := reached
  have pack : channel.pack = channel.track.state.instrument.toNat % max packCount 1 := by
    rw [Channel.pack, packOf, synced.agrees, synced.count]
  refine ⟨synced.agrees, pack, ?_, synced.packs⟩
  rw [pack]
  exact Nat.mod_lt _ (by omega)

/-- A channel that selects an instrument, is rewound to play its track again, and goes on with a
buffer that selects another. -/
def rewoundCommands : List ChannelCommand :=
  [.start, .frame #[0xE9, 8], .restart, .start, .frame #[0xE9, 7], .frame #[0xE9, 7, 0xE7, 60]]

theorem packs_rewoundCommands :
    (recorded 3 0 6 {} rewoundCommands).2 =
        [⟨3, 1, .instrument 7⟩] ++ ⟨3, 1, .play 60⟩ :: [] ∧
      (⟨3, 1, .play 60⟩ : Cue).pack = packBehind 6 [.instrument 7, .play 60] := by
  have sent : (recorded 3 0 6 {} rewoundCommands).2 =
      [⟨3, 1, .instrument 7⟩] ++ ⟨3, 1, .play 60⟩ :: [] := by decide
  exact ⟨sent, (packs_follow_instrument 3 0 6 {} rewoundCommands).2.2.2 _ _ _ sent⟩

end Channel

end Sequencer
