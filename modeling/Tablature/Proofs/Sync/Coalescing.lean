import Tablature.Proofs.Sync.Recovery

/-!
# Turns between operations

Operations only add to the buffer, and a turn only works the buffer off. What
the layers show once the buffer is worked off therefore depends on the
operations alone. An editor that is there and refuses nothing shows it after the
last turn, wherever the other turns were taken.
-/

namespace Tablature

namespace Event

def isOperation : Event → Bool
  | .update .. | .select .. | .play .. | .edit .. => true
  | .dispose | .runPending | .runFrame | .runUntilIdle => false

theorem isOperation_of_isTurn {event : Event} (h : event.isTurn = true) :
    event.isOperation = false := by
  cases event with
  | runPending => rfl
  | runUntilIdle => rfl
  | _ => cases h

end Event

structure Host.Willing (host : Host) : Prop where
  attached : host.attachment.isAttached = true
  accepts : ∀ style content, host.accepts style content = true

/-! ## What a session is about to show -/

/-- What a controller was told, and what its layers show once its buffer has been worked off. -/
structure Outlook where
  inputs : SyncInputs
  mode : Mode
  layers : Layers

def Controller.outlook (c : Controller) : Outlook := ⟨c.inputs, c.mode, c.wanted⟩

namespace Outlook

def plan (o : Outlook) (inputs : SyncInputs) : Outlook :=
  ⟨inputs, (Plan.ofInputs inputs).mode, o.layers.update (.plan inputs)⟩

def edit (o : Outlook) (changes : ChangeSet) (text : Option (List Char)) : Outlook :=
  ⟨{ o.inputs with text := text.getD o.inputs.text }, o.mode, o.layers.update (.edit changes)⟩

def after (o : Outlook) (event : Event) : Outlook :=
  match event.planned? o.inputs with
  | some (inputs, _) => o.plan inputs
  | none =>
    match event with
    | .edit changes text => o.edit changes text
    | _ => o

theorem after_of_not_isOperation (o : Outlook) {event : Event} (h : event.isOperation = false) :
    o.after event = o := by
  cases event with
  | dispose => rfl
  | runPending => rfl
  | runFrame => rfl
  | runUntilIdle => rfl
  | _ => cases h

theorem foldl_after (o : Outlook) (events : List Event) :
    events.foldl after o = (events.filter Event.isOperation).foldl after o := by
  induction events generalizing o with
  | nil => rfl
  | cons event events ih =>
    by_cases h : event.isOperation = true
    · simp [h, ih]
    · simp [h, ih, after_of_not_isOperation]

end Outlook

namespace Controller

variable {host : Host} {c c' : Controller} {event : Event} {calls : List HostCall}

theorem flush_outlook (c : Controller) (h : host.attachment.isAttached = true) :
    (c.flush host).1.outlook = c.outlook := by
  rw [flush_attached c h]
  rfl

theorem Response.outlook (h : Response host c event c' calls)
    (hattached : host.attachment.isAttached = true) (hkept : event ≠ .dispose) :
    c'.outlook = c.outlook.after event := by
  cases h with
  | plan hplan _ flushJob =>
    simp only [Outlook.after, Controller.outlook, hplan, wanted_buffered, Outlook.plan]
  | missPlan hplan hdetached => simp [hattached] at hdetached
  | edit changes text _ flushJob =>
    simp only [Outlook.after, Controller.outlook, Event.planned?, wanted_buffered, Outlook.edit]
  | missEdit changes text hdetached => simp [hattached] at hdetached
  | dispose => exact absurd rfl hkept
  | flush hturn hpending =>
    rw [Outlook.after_of_not_isOperation _ (Event.isOperation_of_isTurn hturn),
      c.flush_outlook hattached]
  | idle hturn hnone => rw [Outlook.after_of_not_isOperation _ (Event.isOperation_of_isTurn hturn)]
  | frame => rfl

/-! ## What the host shows between flushes -/

theorem applyLayers_willing (hwilling : host.Willing) (wanted : Layers) (styles : List Style)
    {held : Bool} {applied : Layers} {style : Style} {content : DecorationSet} {accepted : Bool}
    (h : .apply style content accepted ∈ (applyLayers host wanted held applied styles).2) :
    accepted = true := by
  induction styles generalizing held applied with
  | nil => simp [applyLayers] at h
  | cons first styles ih =>
    rw [applyLayers] at h
    dsimp only at h
    split at h
    · exact ih h
    · rcases List.mem_cons.mp h with h | h
      · cases h
        exact hwilling.accepts _ _
      · exact ih h

theorem flush_willing (hwilling : host.Willing) (c : Controller) (style : Style)
    (content : DecorationSet) : .apply style content false ∉ (c.flush host).2 := by
  intro h
  rw [flush_attached c hwilling.attached] at h
  rcases List.mem_append.mp h with h | h
  · exact Bool.false_ne_true (applyLayers_willing hwilling _ _ h)
  · obtain ⟨target, -, h⟩ := List.mem_flatMap.mp h
    simp [Host.scrollTo] at h

/-- The host shows the layers, unless work is still to come. -/
def Settled (c : Controller) (calls : List HostCall) : Prop :=
  c.hasPending = false →
    ∀ style, (shown calls style).decorations = (c.layers.get style).decorations

theorem settled_of_pending {calls : List HostCall} (h : c.hasPending = true) : c.Settled calls := by
  intro hnone
  rw [h] at hnone
  cases hnone

theorem Response.settled (h : Response host c event c' calls) (hwilling : host.Willing)
    (hkept : event ≠ .dispose) (hsound : c.Sound) {before : List HostCall}
    (hshows : Shows before c.applied) (hsettled : c.Settled before) :
    c'.Settled (before ++ calls) := by
  cases h with
  | plan => exact settled_of_pending (by simp [hasPending])
  | missPlan hplan hdetached => simp [hwilling.attached] at hdetached
  | edit => exact settled_of_pending (by simp [hasPending])
  | missEdit changes text hdetached => simp [hwilling.attached] at hdetached
  | dispose => exact absurd rfl hkept
  | flush hturn hpending =>
    intro _ style
    exact flush_shown hsound hshows hwilling.attached (flush_willing hwilling c) style
  | idle hturn hnone => rwa [List.append_nil]
  | frame => rwa [List.append_nil]

end Controller

/-! ## Runs with the same operations -/

namespace Session

/-- The events are these operations in this order, with turns in between and at the end. -/
structure Interleaves (events : List (Host × Event)) (operations : List Event) : Prop where
  willing : ∀ e ∈ events, e.1.Willing
  kept : ∀ e ∈ events, e.2 ≠ .dispose
  operations : (events.map Prod.snd).filter Event.isOperation = operations
  ended : ∃ earlier host, events = earlier ++ [(host, .runPending)]

variable {s : Session}

theorem Reachable.handle (hs : s.Reachable) (host : Host) (event : Event) :
    (s.handle host event).1.Reachable := by
  obtain ⟨autoScroll, events, rfl⟩ := hs
  exact ⟨autoScroll, events ++ [(host, event)], by simp [run]⟩

theorem run_outlook (hs : s.Armed) (events : List (Host × Event))
    (hattached : ∀ e ∈ events, e.1.attachment.isAttached = true)
    (hkept : ∀ e ∈ events, e.2 ≠ .dispose) :
    (s.run events).controller.outlook =
      (events.map Prod.snd).foldl Outlook.after s.controller.outlook := by
  induction events generalizing s with
  | nil => rfl
  | cons e events ih =>
    obtain ⟨calls, hresponse, -⟩ := handle_response hs e.1 e.2
    have houtlook := hresponse.outlook (hattached e List.mem_cons_self) (hkept e List.mem_cons_self)
    rw [List.map_cons, List.foldl_cons, ← houtlook]
    exact ih (hs.handle e.1 e.2) (fun e' he' => hattached e' (List.mem_cons_of_mem _ he'))
      fun e' he' => hkept e' (List.mem_cons_of_mem _ he')

theorem run_settled (hs : s.Reachable) (events : List (Host × Event))
    (hwilling : ∀ e ∈ events, e.1.Willing) (hkept : ∀ e ∈ events, e.2 ≠ .dispose)
    (hsettled : s.controller.Settled s.calls) :
    (s.run events).controller.Settled (s.run events).calls := by
  induction events generalizing s with
  | nil => exact hsettled
  | cons e events ih =>
    obtain ⟨calls, hresponse, hcalls⟩ := handle_response hs.armed e.1 e.2
    have hsettled' := hresponse.settled (hwilling e List.mem_cons_self) (hkept e List.mem_cons_self)
      hs.sound hs.shows hsettled
    rw [← hcalls] at hsettled'
    exact ih (hs.handle e.1 e.2) (fun e' he' => hwilling e' (List.mem_cons_of_mem _ he'))
      (fun e' he' => hkept e' (List.mem_cons_of_mem _ he')) hsettled'

theorem hasPending_runPending (hs : s.Armed) (host : Host) :
    (s.handle host .runPending).1.controller.hasPending = false := by
  show (s.drain host .runPending).1.controller.hasPending = false
  cases hpending : s.controller.hasPending with
  | false => rw [(drain_idle hs host (.inl rfl) hpending).1, hpending]
  | true =>
    rw [(drain_flush hs host (.inl rfl) hpending).1, Controller.hasPending_eq_false_iff]
    exact Controller.flush_buffer _ _

/-- A turn at the end leaves nothing to come, so the outlook is what the layers show. -/
theorem wanted_of_ended (hs : s.Armed) {events : List (Host × Event)}
    (hended : ∃ earlier host, events = earlier ++ [(host, .runPending)]) :
    (s.run events).controller.hasPending = false ∧
      (s.run events).controller.wanted = (s.run events).controller.layers := by
  obtain ⟨earlier, host, rfl⟩ := hended
  have hnone : (s.run (earlier ++ [(host, .runPending)])).controller.hasPending = false := by
    rw [show s.run (earlier ++ [(host, .runPending)]) = ((s.run earlier).handle host .runPending).1 by
      simp [run]]
    exact hasPending_runPending (run_armed hs earlier) host
  exact ⟨hnone, Controller.wanted_of_buffer_nil (Controller.hasPending_eq_false_iff.mp hnone)⟩

theorem Interleaves.final {events : List (Host × Event)} {operations : List Event}
    (h : Interleaves events operations) (autoScroll : Bool) :
    let final := (initial autoScroll).run events
    (⟨final.controller.inputs, final.controller.mode, final.controller.layers⟩ : Outlook) =
        operations.foldl Outlook.after (Controller.initial autoScroll).outlook ∧
      ∀ style, (shown final.calls style).decorations =
        (final.controller.layers.get style).decorations := by
  intro final
  obtain ⟨hfinal, hwanted⟩ := wanted_of_ended (initial_armed autoScroll) h.ended
  have houtlook := run_outlook (initial_armed autoScroll) events
    (fun e he => (h.willing e he).attached) h.kept
  have hsettled := run_settled ⟨autoScroll, [], rfl⟩ events h.willing h.kept
    fun _ style => by cases style <;> rfl
  refine ⟨?_, hsettled hfinal⟩
  rw [← h.operations, ← Outlook.foldl_after, ← hwanted]
  exact houtlook

/-- It does not matter where turns are taken between operations: inputs, mode and layers end the
same, and so does what the host shows. -/
theorem run_coalesces (autoScroll : Bool) {first second : List (Host × Event)}
    {operations : List Event} (hfirst : Interleaves first operations)
    (hsecond : Interleaves second operations) :
    let s := (initial autoScroll).run first
    let t := (initial autoScroll).run second
    s.controller.layers = t.controller.layers ∧ s.controller.inputs = t.controller.inputs ∧
      s.controller.mode = t.controller.mode ∧
      ∀ style, (shown s.calls style).decorations = (shown t.calls style).decorations := by
  intro s t
  obtain ⟨hs, hshown⟩ := hfirst.final autoScroll
  obtain ⟨ht, hshown'⟩ := hsecond.final autoScroll
  have hsame := hs.trans ht.symm
  simp only [Outlook.mk.injEq] at hsame
  obtain ⟨hinputs, hmode, hlayers⟩ := hsame
  refine ⟨hlayers, hinputs, hmode, ?_⟩
  intro style
  rw [hshown, hshown', hlayers]

/-- Playback shifted by an edit: both in one turn, or a turn for each. -/
theorem run_coalesces_editedPlayback :
    let host : Host := ⟨.attached, none, none, fun _ => none, fun _ _ => true, true⟩
    let inputs : SyncInputs := ⟨['5', '.', '1'], none, some ⟨0, 0⟩, none, true⟩
    let changes : ChangeSet := ⟨[⟨0, 0, 2⟩], 3, firstFault?_eq_none_iff.mp rfl⟩
    let first := [(host, .update inputs none), (host, .edit changes none), (host, .runPending)]
    let second := [(host, .update inputs none), (host, .runPending), (host, .edit changes none),
      (host, .runPending)]
    let s := (initial true).run first
    let t := (initial true).run second
    Interleaves first [.update inputs none, .edit changes none] ∧
      Interleaves second [.update inputs none, .edit changes none] ∧
      (s.controller.layers.get .playback).decorations = [⟨2, 5, .playback⟩] ∧
      s.controller.layers = t.controller.layers ∧ s.controller.inputs = t.controller.inputs ∧
      s.controller.mode = t.controller.mode ∧
      ∀ style, (shown s.calls style).decorations = (shown t.calls style).decorations := by
  intro host inputs changes first second s t
  have hhost : host.Willing := ⟨rfl, fun _ _ => rfl⟩
  have hfirst : Interleaves first [.update inputs none, .edit changes none] :=
    ⟨by simp [first, hhost], by simp [first], rfl, [_, _], host, rfl⟩
  have hsecond : Interleaves second [.update inputs none, .edit changes none] :=
    ⟨by simp [second, hhost], by simp [second], rfl, [_, _, _], host, rfl⟩
  have hplayback : (s.controller.layers.get .playback).decorations = [⟨2, 5, .playback⟩] := by
    decide +kernel
  exact ⟨hfirst, hsecond, hplayback, run_coalesces true hfirst hsecond⟩

end Session

end Tablature
