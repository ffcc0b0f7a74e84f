import Sequencer.Channel

/-!
# The cues of a channel

What a channel hands out in one frame, as a function of the events of its track.

* `Channel.cuesOf` — one cue for each event, with the pack selected by then.
* `Channel.frame_of_running` — a frame of a channel that is not halted.
-/

namespace Sequencer

/-- The same request from another channel. -/
def Cue.retag (channel : Nat) (cue : Cue) : Cue :=
  { cue with channel }

namespace Channel

/-- The channel once an event has been heard. -/
def hearing (channel : Channel) (event : Event) : Channel :=
  { channel with selected := event.instrumentAfter channel.selected }

theorem fst_hear (events : List Event) (channel : Channel) (cues : List Cue) :
    (hear events channel cues).1 = events.foldl hearing channel := by
  induction events generalizing channel cues with
  | nil => rfl
  | cons event events ih => exact ih (channel.hearing event) _

@[simp] theorem track_foldl_hearing (events : List Event) (channel : Channel) :
    (events.foldl hearing channel).track = channel.track := by
  induction events generalizing channel with
  | nil => rfl
  | cons event events ih => exact ih (channel.hearing event)

@[simp] theorem index_foldl_hearing (events : List Event) (channel : Channel) :
    (events.foldl hearing channel).index = channel.index := by
  induction events generalizing channel with
  | nil => rfl
  | cons event events ih => exact ih (channel.hearing event)

@[simp] theorem packCount_foldl_hearing (events : List Event) (channel : Channel) :
    (events.foldl hearing channel).packCount = channel.packCount := by
  induction events generalizing channel with
  | nil => rfl
  | cons event events ih => exact ih (channel.hearing event)

@[simp] theorem selected_foldl_hearing (events : List Event) (channel : Channel) :
    (events.foldl hearing channel).selected =
      events.foldl Event.instrumentAfter channel.selected := by
  induction events generalizing channel with
  | nil => rfl
  | cons event events ih => exact ih (channel.hearing event)

/-- The cues of events, in order. -/
def cuesOf (channel : Channel) (events : List Event) : List Cue :=
  (hear events channel []).2.reverse

@[simp] theorem cuesOf_nil (channel : Channel) : channel.cuesOf [] = [] :=
  rfl

theorem cuesOf_cons (channel : Channel) (event : Event) (events : List Event) :
    channel.cuesOf (event :: events) =
      ⟨channel.index, (channel.hearing event).pack, event⟩ ::
        (channel.hearing event).cuesOf events := by
  have step : hear (event :: events) channel [] = hear events (channel.hearing event)
      [⟨channel.index, (channel.hearing event).pack, event⟩] := rfl
  rw [cuesOf, step, hear_eq_append]
  simp [cuesOf]

theorem map_event_cuesOf (channel : Channel) (events : List Event) :
    (channel.cuesOf events).map Cue.event = events := by
  induction events generalizing channel with
  | nil => rfl
  | cons event events ih => simp [cuesOf_cons, ih]

theorem channel_of_mem_cuesOf {channel : Channel} {events : List Event} {cue : Cue}
    (member : cue ∈ channel.cuesOf events) : cue.channel = channel.index := by
  induction events generalizing channel with
  | nil => cases member
  | cons event events ih =>
    rw [cuesOf_cons] at member
    obtain rfl | later := List.mem_cons.mp member
    · rfl
    · have same := ih later
      exact same

theorem cuesOf_append (channel : Channel) (first second : List Event) :
    channel.cuesOf (first ++ second) =
      channel.cuesOf first ++ (first.foldl hearing channel).cuesOf second := by
  induction first generalizing channel with
  | nil => rfl
  | cons event first ih => simp [cuesOf_cons, ih]

/-- Channels with the same packs and the same instrument differ in their number only. -/
theorem cuesOf_retag {channel other : Channel} (packs : other.packCount = channel.packCount)
    (selected : other.selected = channel.selected) (events : List Event) :
    other.cuesOf events = (channel.cuesOf events).map (Cue.retag other.index) := by
  induction events generalizing channel other with
  | nil => rfl
  | cons event events ih =>
    have packs' : (other.hearing event).packCount = (channel.hearing event).packCount := packs
    have selected' : (other.hearing event).selected = (channel.hearing event).selected := by
      simp only [hearing, selected]
    rw [cuesOf_cons, cuesOf_cons, ih packs' selected', pack, pack, packs', selected']
    rfl

theorem frame_of_halted {channel : Channel} (halted : channel.track.state.halted = true)
    (code : Bytecode) : channel.frame code = (channel, []) := by
  rw [frame, if_pos halted]

theorem frame_of_running {channel : Channel} (running : channel.track.state.halted = false)
    (code : Bytecode) :
    channel.frame code =
      ((channel.track.dispatch code).2.foldl hearing
          { channel with track := (channel.track.dispatch code).1 },
        ({ channel with track := (channel.track.dispatch code).1 } : Channel).cuesOf
          (channel.track.dispatch code).2) := by
  simp only [frame, running, Bool.false_eq_true, if_false, fst_hear]
  rfl

theorem index_frame (channel : Channel) (code : Bytecode) :
    (channel.frame code).1.index = channel.index := by
  by_cases halted : channel.track.state.halted = true
  · rw [frame_of_halted halted]
  · rw [frame_of_running (by simpa using halted), index_foldl_hearing]

theorem channel_of_mem_frame {channel : Channel} {code : Bytecode} {cue : Cue}
    (member : cue ∈ (channel.frame code).2) : cue.channel = channel.index := by
  by_cases halted : channel.track.state.halted = true
  · rw [frame_of_halted halted] at member
    cases member
  · rw [frame_of_running (by simpa using halted)] at member
    have same := channel_of_mem_cuesOf member
    exact same

end Channel

end Sequencer
