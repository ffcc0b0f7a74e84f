import Sequencer.Proofs.Player
import Sequencer.Proofs.Script.Tame
import Sequencer.Proofs.SongLayout
import Sequencer.Proofs.Track.Overrun

/-!
# How far the channels of a song are isolated

A channel plays the program of its own script, so it should give the cues of a song
made of that script alone.  It does, but for the frame in which the script runs off its
end: the final `halt` does not end the phase, so the channel then goes on with the next
script.

* `Channel.Twins`, `Player.Twins` — a channel of a song beside the same script alone.
* `Player.overrun` — what a script alone would ask for in its next frame behind its
  end, given the bytes that are there in the song.
* `Player.Twins.cuesAt` — frame by frame that is all the channel adds.
-/

namespace Sequencer

/-! ## A channel beside its twin -/

/-- One channel has a program to itself, the other plays the same program in a larger buffer. -/
structure Channel.Twins (program : Program) (base : UInt16) (alone shared : Channel) : Prop where
  packs : shared.packCount = alone.packCount
  config : shared.track.config = alone.track.config
  aloneBase : alone.track.base = 0
  sharedBase : shared.track.base = base
  lockstep : program.Lockstep alone.track.state shared.track.state
  selected : alone.track.state.halted = false → shared.selected = alone.selected

/-- What the channel asks for in its next frame behind the end of its program, if that program
lies at the base in the buffer. -/
def Channel.overrun (channel : Channel) (code : Bytecode) (base : UInt16) (size : Nat) :
    List Event :=
  channel.track.state.overrun channel.track.config
    (fun cursor => code.decode (base.toNat + cursor.toNat)) size

/-- The bytes of a program alone, and in a larger buffer. -/
structure Program.Embedded (program : Program) (own code : Bytecode) (base : UInt16) : Prop where
  own : own.toList = bytesOf program.instructions
  within : ∃ before after, base.toNat = before.length ∧
    code.toList = before ++ (bytesOf program.instructions ++ after)

namespace Program.Embedded

variable {program : Program} {own code : Bytecode} {base : UInt16}

theorem size_eq (embedded : program.Embedded own code base) : own.size = program.size := by
  rw [← Array.length_toList, embedded.own, Routine.size]

theorem placed_alone (embedded : program.Embedded own code base) :
    program.Placed fun cursor => own.decode (0 + cursor.toNat) :=
  program.placed_decode (by simpa using embedded.own : own.toList = [] ++ (_ ++ [])) rfl

theorem placed_shared (embedded : program.Embedded own code base) :
    program.Placed fun cursor => code.decode (base.toNat + cursor.toNat) := by
  obtain ⟨before, after, start, layout⟩ := embedded.within
  exact program.placed_decode layout start.symm

/-- Behind a program alone there are only zeros. -/
theorem silent (embedded : program.Embedded own code base) (cursor : UInt16)
    (past : program.size ≤ cursor.toNat) : own.decode (0 + cursor.toNat) = .nop := by
  apply Bytecode.decode_of_size_le
  rw [embedded.size_eq]
  omega

end Program.Embedded

theorem Track.dispatch_eq {track : Track} {base : UInt16} (start : track.base = base)
    (code : Bytecode) :
    track.dispatch code =
      let result := track.state.dispatch track.config fun cursor =>
        code.decode (base.toNat + cursor.toNat)
      ({ track with state := result.1 }, result.2) := by
  subst start
  rfl

/-- In each frame the channel in the larger buffer gives the cues of its twin, and then those
from behind the program. -/
theorem Channel.Twins.frame {program : Program} {base : UInt16} {alone shared : Channel}
    {own code : Bytecode} (twins : Twins program base alone shared)
    (embedded : program.Embedded own code base) :
    (∃ extra, (shared.frame code).2 =
        (alone.frame own).2.map (Cue.retag shared.index) ++ extra ∧
      extra.map Cue.event = alone.overrun code base program.size) ∧
    Twins program base (alone.frame own).1 (shared.frame code).1 := by
  obtain ⟨packs, config, aloneBase, sharedBase, lockstep, selected⟩ := twins
  by_cases halted : alone.track.state.halted = true
  · have both : shared.track.state.halted = true := by
      obtain ⟨same, -⟩ | ⟨-, both⟩ := lockstep
      · rw [← same, halted]
      · exact both
    rw [frame_of_halted halted, frame_of_halted both]
    have nothing : alone.overrun code base program.size = [] := by
      simp [overrun, TrackState.overrun, halted]
    exact ⟨⟨[], rfl, nothing.symm⟩, packs, config, aloneBase, sharedBase, lockstep, selected⟩
  · have running : alone.track.state.halted = false := by simpa using halted
    obtain ⟨same, holds⟩ | ⟨impossible, -⟩ := lockstep
    · obtain ⟨events, lockstep, contained⟩ := Routine.dispatch_overrun alone.track.config
        embedded.placed_alone embedded.placed_shared embedded.silent holds running
      have runningShared : shared.track.state.halted = false := by rw [← same, running]
      rw [frame_of_running running, frame_of_running runningShared,
        Track.dispatch_eq aloneBase, Track.dispatch_eq sharedBase, config, ← same]
      have zero : (0 : UInt16).toNat = 0 := rfl
      simp only [zero, events]
      refine ⟨⟨_, (cuesOf_append _ _ _).trans (congrArg (· ++ _) ?_), map_event_cuesOf _ _⟩, ?_⟩
      · apply cuesOf_retag
        · exact packs
        · exact selected running
      · refine ⟨by simpa using packs, by simp, by simpa using aloneBase, by simpa using sharedBase,
          by simpa using lockstep, ?_⟩
        -- a channel that goes on has heard nothing from behind its program
        intro running'
        rw [track_foldl_hearing] at running'
        simp only [contained running', selected_foldl_hearing, List.append_nil, selected running]
    · exact absurd impossible halted

/-! ## Players -/

namespace Player

/-- What the channels of a player ask for in its next frame behind the end of its own buffer, if
that buffer lies at the base in the given one. -/
def overrun (player : Player) (code : Bytecode) (base : UInt16) : List Event :=
  if 0 < player.frameCounter then []
  else player.channels.flatMap (·.overrun code base player.bytecode.size)

/-- One player plays a program alone, and the other plays it in one of its channels. -/
structure Twins (program : Program) (index : Nat) (base : UInt16) (alone shared : Player) :
    Prop where
  embedded : program.Embedded alone.bytecode shared.bytecode base
  framesPerTick : shared.config.framesPerTick = alone.config.framesPerTick
  frameCounter : shared.frameCounter = alone.frameCounter
  nothingPending : alone.pending = [] ∧ shared.pending = []
  channels : ∃ own other, alone.channels = [own] ∧
    shared.channels.filter (·.index = index) = [other] ∧ Channel.Twins program base own other

/-- The cues of a channel are those its own frame has given. -/
theorem filter_flatMap_frame (channels : List Channel) (code : Bytecode) (index : Nat) :
    (channels.flatMap fun channel => (channel.frame code).2).filter (·.channel = index) =
      (channels.filter (·.index = index)).flatMap fun channel => (channel.frame code).2 := by
  induction channels with
  | nil => rfl
  | cons channel channels ih =>
    rw [List.flatMap_cons, List.filter_append, ih, List.filter_cons]
    by_cases same : channel.index = index
    · have all : ∀ cue ∈ (channel.frame code).2, (decide (cue.channel = index)) = true := by
        intro cue member
        simp [Channel.channel_of_mem_frame member, same]
      rw [List.filter_eq_self.mpr all]
      simp [same]
    · have none : ∀ cue ∈ (channel.frame code).2, ¬(decide (cue.channel = index)) = true := by
        intro cue member
        simp [Channel.channel_of_mem_frame member, same]
      rw [List.filter_eq_nil_iff.mpr none]
      simp [same]

theorem filter_map_frame (channels : List Channel) (code : Bytecode) (index : Nat) :
    (channels.map fun channel => (channel.frame code).1).filter (·.index = index) =
      (channels.filter (·.index = index)).map fun channel => (channel.frame code).1 := by
  rw [List.filter_map]
  simp [Function.comp_def, Channel.index_frame]

theorem Twins.frame {program : Program} {index : Nat} {base : UInt16} {alone shared : Player}
    (twins : Twins program index base alone shared) :
    (∃ extra, shared.frame.2.filter (·.channel = index) =
        alone.frame.2.map (Cue.retag index) ++ extra ∧
      extra.map Cue.event = alone.overrun shared.bytecode base) ∧
    Twins program index base alone.frame.1 shared.frame.1 ∧
    shared.frame.1.bytecode = shared.bytecode := by
  obtain ⟨embedded, framesPerTick, frameCounter, ⟨nothing, nothing'⟩, own, other, isOwn, isOther,
    channelTwins⟩ := twins
  by_cases counting : 0 < alone.frameCounter
  · have counting' : 0 < shared.frameCounter := frameCounter ▸ counting
    have none : alone.overrun shared.bytecode base = [] := by rw [overrun, if_pos counting]
    rw [frame_of_counting counting, frame_of_counting counting']
    refine ⟨⟨[], rfl, none.symm⟩, ⟨embedded, framesPerTick, ?_, ⟨nothing, nothing'⟩, own, other,
      isOwn, isOther, channelTwins⟩, rfl⟩
    simp only [frameCounter]
  · have ready' : ¬0 < shared.frameCounter := frameCounter ▸ counting
    have index_eq : other.index = index := by
      have member : other ∈ shared.channels.filter (·.index = index) := by simp [isOther]
      simpa using (List.mem_filter.mp member).2
    obtain ⟨⟨extra, split, events⟩, channelTwins'⟩ := channelTwins.frame embedded
    -- the channels with the index are one, and only it gives cues that count
    rw [frame_of_ready counting nothing, frame_of_ready ready' nothing']
    refine ⟨⟨extra, ?_, ?_⟩, ⟨embedded, framesPerTick, framesPerTick, ⟨nothing, nothing'⟩, _, _,
      by simp [isOwn], ?_, channelTwins'⟩, rfl⟩
    · simp only [filter_flatMap_frame, isOther, isOwn, List.flatMap_singleton, split, index_eq]
    · simp [overrun, counting, isOwn, events, embedded.size_eq]
    · simp only [filter_map_frame, isOther, List.map_singleton]

/-- The frames of a whole run. -/
theorem Twins.cuesAt {program : Program} {index : Nat} {base : UInt16} {alone shared : Player}
    (twins : Twins program index base alone shared) (frame : Nat) :
    ∃ extra, (shared.cuesAt frame).filter (·.channel = index) =
        (alone.cuesAt frame).map (Cue.retag index) ++ extra ∧
      extra.map Cue.event = (alone.after frame).overrun shared.bytecode base := by
  induction frame generalizing alone shared with
  | zero => exact twins.frame.1
  | succ frame ih =>
    obtain ⟨-, next, same⟩ := twins.frame
    obtain ⟨extra, split, events⟩ := ih next
    rw [same] at events
    exact ⟨extra, split, events⟩

end Player

/-! ## Songs -/

theorem filter_zipIdx {α : Type} {xs : List α} {index : Nat} {x : α} (listed : xs[index]? = some x)
    (start : Nat) :
    (xs.zipIdx start).filter (·.2 = start + index) = [(x, start + index)] := by
  induction xs generalizing start index with
  | nil => simp at listed
  | cons first xs ih =>
    rw [List.zipIdx_cons, List.filter_cons]
    cases index with
    | zero =>
      obtain rfl : first = x := by simpa using listed
      have none : (xs.zipIdx (start + 1)).filter (·.2 = start) = [] := by
        rw [List.filter_eq_nil_iff]
        intro entry member
        have later := (List.mem_zipIdx member).1
        simp
        omega
      simp [none]
    | succ index =>
      have rest := ih (by simpa using listed) (start + 1)
      rw [show start + 1 + index = start + (index + 1) by omega] at rest
      simp [rest]

theorem Player.twins_started {program : Program} {own : Bytecode} {song : Song} {index : Nat}
    {base : UInt16} (config : PlayerConfig) (listed : song.bases[index]? = some base)
    (embedded : program.Embedded own song.bytecode base) :
    Player.Twins program index base (Player.started config ⟨own, [0]⟩)
      (Player.started config song) := by
  refine ⟨embedded, rfl, rfl, ⟨rfl, rfl⟩, Channel.fresh config 0 0, Channel.fresh config index base,
    ?_, ?_, ?_⟩
  · simp [channels_started]
  · have only := filter_zipIdx listed 0
    rw [Nat.zero_add] at only
    rw [channels_started, List.filter_map]
    show ((song.bases.zipIdx.filter fun entry => entry.2 = index).map _) = _
    rw [only]
    rfl
  · exact ⟨rfl, rfl, rfl, rfl, .inl ⟨rfl, program.holds_default⟩, fun _ => rfl⟩

/-- Whether a source compiles to fewer than 256 bytes, jumps to labels only, and writes only raw
bytes that are played as they are. -/
def TameSource (source : String) : Prop :=
  ∃ script code, Script.parse source = .ok script ∧ Script.compile script = .ok code ∧
    Script.Tame script ∧ code.size < 256

/-- In each frame a channel gives the cues of a song made of its script alone, and then those
that are raised behind the end of the script.  So the two agree exactly in the frames that raise
none there. -/
theorem cuesAt_eq_alone_iff {sources : List String} {song : Song} {index : Nat} {source : String}
    (compiled : Song.compile sources = .ok song) (listed : sources[index]? = some source)
    (tame : TameSource source) (config : PlayerConfig) :
    ∃ alone base, Song.compile [source] = .ok alone ∧ song.bases[index]? = some base ∧
      ∀ frame,
        (∃ extra, ((Player.started config song).cuesAt frame).filter (·.channel = index) =
            ((Player.started config alone).cuesAt frame).map (Cue.retag index) ++ extra ∧
          extra.map Cue.event =
            ((Player.started config alone).after frame).overrun song.bytecode base) ∧
        (((Player.started config song).cuesAt frame).filter (·.channel = index) =
            ((Player.started config alone).cuesAt frame).map (Cue.retag index) ↔
          ((Player.started config alone).after frame).overrun song.bytecode base = []) := by
  obtain ⟨script, own, parsed, accepted, isTame, short⟩ := tame
  obtain ⟨own', base, before, after, compiled', listed', start, layout⟩ :=
    Song.packed_of_compile compiled listed
  obtain rfl : own = own' := by
    have same := (compileSource_eq_ok parsed accepted).symm.trans compiled'
    simpa using same
  obtain ⟨program, bytes⟩ :=
    (Script.compile_eq_ok_iff.mp accepted).exists_program isTame (Nat.le_of_lt short)
  have embedded : program.Embedded own song.bytecode base :=
    ⟨bytes.symm, before, after, start, by rw [bytes, layout]⟩
  have twins := Player.twins_started config listed' embedded
  refine ⟨⟨own, [0]⟩, base, Song.compile_singleton compiled', listed', ?_⟩
  intro frame
  obtain ⟨extra, split, events⟩ := twins.cuesAt frame
  refine ⟨⟨extra, split, events⟩, ?_⟩
  have same : (Player.started config song).bytecode = song.bytecode := rfl
  rw [same] at events
  rw [split, ← events]
  simp

/-- A script that is followed by a pause stops where it ends. -/
theorem cuesAt_before_wait :
    Song.compile ["play(1)", "wait(2)"] = .ok ⟨#[0xE7, 1, 0xFF, 0xEB, 2, 0xFF], [0, 3]⟩ ∧
    TameSource "play(1)" ∧ Song.compile ["play(1)"] = .ok ⟨#[0xE7, 1, 0xFF], [0]⟩ ∧
    ((Player.started { framesPerTick := 0 }
        ⟨#[0xE7, 1, 0xFF, 0xEB, 2, 0xFF], [0, 3]⟩).cuesAt 1).filter (·.channel = 0) =
      ((Player.started { framesPerTick := 0 } ⟨#[0xE7, 1, 0xFF], [0]⟩).cuesAt 1).map
        (Cue.retag 0) := by
  have compiled : Song.compile ["play(1)", "wait(2)"] =
      .ok ⟨#[0xE7, 1, 0xFF, 0xEB, 2, 0xFF], [0, 3]⟩ := by decide +kernel
  have own : Song.compile ["play(1)"] = .ok ⟨#[0xE7, 1, 0xFF], [0]⟩ := by decide +kernel
  have tame : TameSource "play(1)" := by
    refine ⟨[.call ⟨"play", [⟨.number 1, ⟨5, 6⟩⟩], ⟨0, 7⟩⟩], #[0xE7, 1, 0xFF], by decide +kernel,
      by decide, Script.tame_call_cons.mpr ⟨?_, Script.tame_nil⟩, by decide⟩
    exact Script.Call.tame_of_opcode (rfl : _ = Opcode.play.mnemonic) (by simp)
  have listed : ["play(1)", "wait(2)"][0]? = some "play(1)" := rfl
  obtain ⟨alone, base, own', listed, each⟩ :=
    cuesAt_eq_alone_iff compiled listed tame { framesPerTick := 0 }
  obtain rfl := Except.ok.inj (own.symm.trans own')
  obtain rfl : 0 = base := by simpa using listed
  exact ⟨compiled, tame, own, (each 1).2.mpr (by decide +kernel)⟩

/-- An empty script has nothing but its final `halt`, and yet it plays the note of the next. -/
theorem cuesAt_before_play :
    Song.compile ["", "play(60)"] = .ok ⟨#[0xFF, 0xE7, 60, 0xFF], [0, 1]⟩ ∧
    Song.compile [""] = .ok ⟨#[0xFF], [0]⟩ ∧ TameSource "" ∧ TameSource "play(60)" ∧
    ((Player.started {} ⟨#[0xFF, 0xE7, 60, 0xFF], [0, 1]⟩).cuesAt 0).filter (·.channel = 0) =
      [⟨0, 0, .halt⟩, ⟨0, 0, .play 60⟩] ∧
    ((Player.started {} ⟨#[0xFF], [0]⟩).cuesAt 0).map (Cue.retag 0) = [⟨0, 0, .halt⟩] := by
  have empty : TameSource "" :=
    ⟨[], #[0xFF], by decide +kernel, by decide, Script.tame_nil, by decide⟩
  have tame : TameSource "play(60)" := by
    refine ⟨[.call ⟨"play", [⟨.number 60, ⟨5, 7⟩⟩], ⟨0, 8⟩⟩], #[0xE7, 60, 0xFF], by decide +kernel,
      by decide, Script.tame_call_cons.mpr ⟨?_, Script.tame_nil⟩, by decide⟩
    exact Script.Call.tame_of_opcode (rfl : _ = Opcode.play.mnemonic) (by simp)
  exact ⟨by decide +kernel, by decide +kernel, empty, tame, by decide +kernel, by decide +kernel⟩

end Sequencer
