import Mathlib.Data.List.Infix
import Tablature.Proofs.Sync.Responses

/-!
# The parked bar during playback

While the player plays, no plan fills the layer of the parked bar and no edit
brings it back. So the layer stays empty from the first update of the playback
that goes through: the host is there when it is made, and there again at the next
turn. An update that the host misses leaves the layer as it was.
-/

namespace Tablature

def Event.isUpdate : Event → Bool
  | .update .. | .select .. | .play .. => true
  | .edit .. | .dispose | .runPending | .runFrame | .runUntilIdle => false

theorem Event.isUpdate_of_isTurn {event : Event} (h : event.isTurn = true) :
    event.isUpdate = false := by
  cases event with
  | runPending => rfl
  | runUntilIdle => rfl
  | _ => cases h

theorem Mode.style?_ofInputs_ne_parkedBar {inputs : SyncInputs} (h : inputs.isPlaying = true) :
    (Mode.ofInputs inputs).style? ≠ some .parkedBar := by
  unfold ofInputs
  rw [if_pos h]
  cases inputs.playback with
  | none => simp [style?]
  | some position => simp [style?]

def Layers.Unparked (ls : Layers) : Prop := (ls.get .parkedBar).decorations = []

theorem Layers.unparked_update_plan (ls : Layers) {inputs : SyncInputs}
    (h : inputs.isPlaying = true) : (ls.update (.plan inputs)).Unparked :=
  update_plan_others ls (Mode.style?_ofInputs_ne_parkedBar h)

theorem Layers.Unparked.update_edit {ls : Layers} (h : ls.Unparked) (changes : ChangeSet) :
    (ls.update (.edit changes)).Unparked :=
  update_edit_decorations h

namespace Controller

variable {host : Host} {c c' : Controller} {event : Event} {calls : List HostCall}

theorem Response.updated (h : Response host c event c' calls) (hupdate : event.isUpdate = true)
    (hattached : host.attachment.isAttached = true) (hplaying : c'.inputs.isPlaying = true) :
    c'.hasPending = true ∧ c'.wanted.Unparked := by
  cases h with
  | plan hplan _ flushJob =>
    refine ⟨by simp [hasPending], ?_⟩
    rw [wanted_buffered]
    exact c.wanted.unparked_update_plan hplaying
  | missPlan hplan hdetached => simp [hattached] at hdetached
  | edit => cases hupdate
  | missEdit => cases hupdate
  | dispose => cases hupdate
  | flush hturn => simp [Event.isUpdate_of_isTurn hturn] at hupdate
  | idle hturn => simp [Event.isUpdate_of_isTurn hturn] at hupdate
  | frame => cases hupdate

/-- What waits to be flushed still clears the layer after an event that does not flush it. -/
theorem Response.waiting (h : Response host c event c' calls) (hturn : event.isTurn = false)
    (hkept : event ≠ .dispose) (hplaying : c'.inputs.isPlaying = true)
    (hpending : c.hasPending = true) (hwanted : c.wanted.Unparked) :
    c'.hasPending = true ∧ c'.wanted.Unparked := by
  cases h with
  | plan hplan _ flushJob =>
    refine ⟨by simp [hasPending], ?_⟩
    rw [wanted_buffered]
    exact c.wanted.unparked_update_plan hplaying
  | missPlan => exact ⟨hpending, hwanted⟩
  | edit changes text _ flushJob =>
    refine ⟨by simp [hasPending], ?_⟩
    rw [wanted_buffered]
    exact hwanted.update_edit changes
  | missEdit => exact ⟨hpending, hwanted⟩
  | dispose => exact absurd rfl hkept
  | flush hturn' => simp [hturn] at hturn'
  | idle hturn' => simp [hturn] at hturn'
  | frame => exact ⟨hpending, hwanted⟩

def Cleared (c : Controller) : Prop := c.layers.Unparked ∧ c.wanted.Unparked

theorem flush_cleared (hattached : host.attachment.isAttached = true) (h : c.wanted.Unparked) :
    (c.flush host).1.Cleared := by
  unfold Cleared
  rw [wanted_of_buffer_nil (flush_buffer c host), flush_attached c hattached]
  exact ⟨h, h⟩

theorem Cleared.flush (h : c.Cleared) (host : Host) : (c.flush host).1.Cleared := by
  cases hattached : host.attachment.isAttached with
  | false =>
    rw [flush_detached c hattached]
    exact ⟨h.1, h.1⟩
  | true => exact flush_cleared hattached h.2

theorem Response.cleared (h : Response host c event c' calls) (hplaying : c'.inputs.isPlaying = true)
    (hc : c.Cleared) : c'.Cleared := by
  cases h with
  | plan =>
    refine ⟨hc.1, ?_⟩
    rw [wanted_buffered]
    exact c.wanted.unparked_update_plan hplaying
  | missPlan => exact hc
  | edit changes =>
    refine ⟨hc.1, ?_⟩
    rw [wanted_buffered]
    exact hc.2.update_edit changes
  | missEdit => exact hc
  | dispose => exact ⟨hc.1, hc.1⟩
  | flush => exact hc.flush host
  | idle => exact hc
  | frame => exact hc

end Controller

/-! ## Runs that play -/

namespace Session

variable {s : Session}

theorem run_cleared (hs : s.Armed) (events : List (Host × Event))
    (hplaying : ∀ middle, middle <+: events → (s.run middle).controller.inputs.isPlaying = true)
    (hc : s.controller.Cleared) : (s.run events).controller.Cleared := by
  induction events generalizing s with
  | nil => exact hc
  | cons e events ih =>
    obtain ⟨calls, hresponse, -⟩ := handle_response hs e.1 e.2
    have hfirst := hplaying [e] (List.cons_prefix_cons.mpr ⟨rfl, List.nil_prefix⟩)
    refine ih (hs.handle e.1 e.2) (fun middle hmiddle => ?_) (hresponse.cleared hfirst hc)
    exact hplaying (e :: middle) (List.cons_prefix_cons.mpr ⟨rfl, hmiddle⟩)

theorem run_waiting (hs : s.Armed) (events : List (Host × Event))
    (hkept : ∀ e ∈ events, e.2 ≠ .dispose)
    (hturn : ∀ turn, events.find? (·.2.isTurn) = some turn → turn.1.attachment.isAttached = true)
    (hplaying : ∀ middle, middle <+: events → (s.run middle).controller.inputs.isPlaying = true)
    (hpending : s.controller.hasPending = true) (hwanted : s.controller.wanted.Unparked) :
    (s.run events).controller.hasPending = true ∨ (s.run events).controller.Cleared := by
  induction events generalizing s with
  | nil => exact .inl hpending
  | cons e events ih =>
    have hrest : ∀ middle, middle <+: events →
        ((s.handle e.1 e.2).1.run middle).controller.inputs.isPlaying = true := fun middle hmiddle =>
      hplaying (e :: middle) (List.cons_prefix_cons.mpr ⟨rfl, hmiddle⟩)
    cases hfirst : e.2.isTurn with
    | true =>
      -- The first turn flushes what waits; from there on the layer stays clear.
      have hattached := hturn e (by simp [hfirst])
      have hflushed : (s.handle e.1 e.2).1.controller = (s.controller.flush e.1).1 :=
        congrArg Prod.fst (handle_flushed hs e.1 hfirst hpending)
      refine .inr (run_cleared (hs.handle e.1 e.2) events hrest ?_)
      rw [hflushed]
      exact Controller.flush_cleared hattached hwanted
    | false =>
      obtain ⟨calls, hresponse, -⟩ := handle_response hs e.1 e.2
      obtain ⟨hpending', hwanted'⟩ := hresponse.waiting hfirst (hkept e List.mem_cons_self)
        (hrest [] List.nil_prefix) hpending hwanted
      refine ih (hs.handle e.1 e.2) (fun e' he' => hkept e' (List.mem_cons_of_mem _ he'))
        (fun turn hfound => ?_) hrest hpending' hwanted'
      exact hturn turn (by simp [hfirst, hfound])

/-- While the player plays, the layer of the parked bar is empty, once an update of the playback
has gone through: the host was there for it and is there at the first turn after it. -/
theorem Reachable.run_playing_parkedBar (hs : s.Reachable) {host : Host} {event : Event}
    {events : List (Host × Event)} (hupdate : event.isUpdate = true)
    (hattached : host.attachment.isAttached = true) (hkept : ∀ e ∈ events, e.2 ≠ .dispose)
    (hturn : ∀ turn, events.find? (·.2.isTurn) = some turn → turn.1.attachment.isAttached = true)
    (hplaying : ∀ middle, middle <+: events →
      (s.run ((host, event) :: middle)).controller.inputs.isPlaying = true)
    (hpending : (s.run ((host, event) :: events)).controller.hasPending = false) :
    ((s.run ((host, event) :: events)).controller.layers.get .parkedBar).decorations = [] := by
  obtain ⟨calls, hresponse, -⟩ := handle_response hs.armed host event
  obtain ⟨hwork, hwanted⟩ := hresponse.updated hupdate hattached (hplaying [] List.nil_prefix)
  rcases run_waiting (hs.armed.handle host event) events hkept hturn hplaying hwork hwanted with
    h | h
  · exact absurd (h.symm.trans hpending) (by simp)
  · exact h.1

/-- The player starts, an edit follows in the same turn, and later ticks are missed. -/
theorem run_playing_parkedBar_missedTick :
    let host (attachment : Attachment) : Host :=
      ⟨attachment, none, none, fun _ => none, fun _ _ => true, true⟩
    let play (isPlaying : Bool) : Event :=
      .play ['5', '.', '1', ' ', '5', '.', '2'] (some ⟨0, 1⟩) (some ⟨0, 0⟩) isPlaying none
    let changes : ChangeSet := ⟨[⟨0, 0, 2⟩], 7, firstFault?_eq_none_iff.mp rfl⟩
    let s := (initial true).run [(host .attached, play false), (host .attached, .runPending)]
    let events := [(host .attached, .edit changes none), (host .attached, .runPending),
      (host .detached, play true), (host .detached, .runPending)]
    (s.controller.layers.get .parkedBar).decorations = [⟨0, 7, .parkedBar⟩] ∧ s.Reachable ∧
      (∀ middle, middle <+: events →
        (s.run ((host .attached, play true) :: middle)).controller.inputs.isPlaying = true) ∧
      (s.run ((host .attached, play true) :: events)).controller.hasPending = false ∧
      ((s.run ((host .attached, play true) :: events)).controller.layers.get
        .parkedBar).decorations = [] := by
  intro host play changes s events
  have hs : s.Reachable := ⟨true, _, rfl⟩
  have hshown : (s.controller.layers.get .parkedBar).decorations = [⟨0, 7, .parkedBar⟩] := by
    decide +kernel
  have hplaying : ∀ middle, middle <+: events →
      (s.run ((host .attached, play true) :: middle)).controller.inputs.isPlaying = true := by
    intro middle hmiddle
    have hcases : middle ∈ events.inits := (List.mem_inits _ _).mpr hmiddle
    simp only [events, List.inits, List.map_cons, List.map_nil, List.mem_cons, List.not_mem_nil,
      or_false] at hcases
    simp only [s, host, play]
    rcases hcases with rfl | rfl | rfl | rfl | rfl
    · decide +kernel
    · decide +kernel
    · decide +kernel
    · decide +kernel
    · decide +kernel
  have hpending : (s.run ((host .attached, play true) :: events)).controller.hasPending = false := by
    decide +kernel
  refine ⟨hshown, hs, hplaying, hpending, ?_⟩
  exact hs.run_playing_parkedBar rfl rfl (by simp [events, play])
    (by simp [events, host, play, Event.isTurn, Attachment.isAttached]) hplaying hpending

/-- The host is gone when the player starts, so the parked bar stays. -/
theorem parkedBar_kept_whilePlaying :
    ¬ ∀ (autoScroll : Bool) (events : List (Host × Event)), (∀ e ∈ events, e.2 ≠ .dispose) →
      ((initial autoScroll).run events).controller.hasPending = false →
      ((initial autoScroll).run events).controller.inputs.isPlaying = true →
      (((initial autoScroll).run events).controller.layers.get .parkedBar).decorations = [] := by
  intro h
  let host (attachment : Attachment) : Host :=
    ⟨attachment, none, none, fun _ => none, fun _ _ => true, true⟩
  let play (isPlaying : Bool) : Event :=
    .play ['5', '.', '1', ' ', '5', '.', '2'] (some ⟨0, 0⟩) (some ⟨0, 0⟩) isPlaying none
  let events : List (Host × Event) :=
    [(host .attached, play false), (host .attached, .runPending), (host .detached, play true)]
  have hshown : (((initial true).run events).controller.layers.get .parkedBar).decorations =
      [⟨0, 7, .parkedBar⟩] := by
    decide +kernel
  have hempty := h true events (by simp [events, play]) (by decide +kernel)
    (by decide +kernel)
  rw [hshown] at hempty
  cases hempty

end Session

end Tablature
