import Mathlib.Data.List.Forall2
import Tablature.Proofs.Schedule.TwoWorlds
import Tablature.Proofs.Sync.FailingCalls

/-!
# What the host has no say in

Whether the host is there decides what a session does; its other answers and its
failures decide only what the host shows. So two sessions that agree in all but
the layers that were accepted and the calls that were made go on agreeing, as
long as the host is there for both or for neither.
-/

namespace Tablature

namespace Controller

def Agrees (c d : Controller) : Prop := ∃ applied, d = { c with applied := applied }

theorem Agrees.refl (c : Controller) : c.Agrees c := ⟨c.applied, rfl⟩

theorem Agrees.flush {c d : Controller} (h : c.Agrees d) {host host' : Host}
    (hsame : host.attachment.isAttached = host'.attachment.isAttached) :
    (c.flush host).1.Agrees (d.flush host').1 := by
  obtain ⟨applied, rfl⟩ := h
  unfold Controller.flush
  rw [hsame]
  cases host'.attachment.isAttached with
  | false => exact ⟨applied, rfl⟩
  | true => exact ⟨_, rfl⟩

end Controller

namespace Session

structure Agrees (s t : Session) : Prop where
  controller : s.controller.Agrees t.controller
  scheduler : s.scheduler = t.scheduler

variable {s t : Session}

theorem Agrees.exists_eq (h : s.Agrees t) : ∃ applied calls,
    t = ⟨{ s.controller with applied := applied }, s.scheduler, calls⟩ := by
  obtain ⟨⟨applied, hcontroller⟩, hscheduler⟩ := h
  obtain ⟨d, scheduler, calls⟩ := t
  dsimp only at hcontroller hscheduler
  exact ⟨applied, calls, by rw [hcontroller, hscheduler]⟩

section
variable {host host' : Host} (h : s.Agrees t)
  (hsame : host.attachment.isAttached = host'.attachment.isAttached)
include h hsame

theorem Agrees.enqueue (u : Transaction) (scroll : Option (Option ScrollTarget)) :
    (s.enqueue host u scroll).Agrees (t.enqueue host' u scroll) := by
  obtain ⟨applied, calls, rfl⟩ := h.exists_eq
  unfold Session.enqueue
  rw [hsame]
  cases host'.attachment.isAttached with
  | false => exact h
  | true =>
    cases hjob : s.controller.flushJob with
    | none => exact ⟨⟨applied, by simp [hjob]⟩, by simp [hjob]⟩
    | some job => exact ⟨⟨applied, by simp [hjob]⟩, by simp [hjob]⟩

theorem Agrees.update (inputs : SyncInputs) (scrolls : Option Bool) :
    (s.update host inputs scrolls).1.Agrees (t.update host' inputs scrolls).1 ∧
      (s.update host inputs scrolls).2 = (t.update host' inputs scrolls).2 := by
  obtain ⟨applied, calls, rfl⟩ := h.exists_eq
  refine ⟨Agrees.enqueue ?_ hsame _ _, rfl⟩
  exact ⟨⟨applied, rfl⟩, rfl⟩

theorem Agrees.edit (changes : ChangeSet) (text : Option (List Char)) :
    (s.edit host changes text).Agrees (t.edit host' changes text) := by
  obtain ⟨applied, calls, rfl⟩ := h.exists_eq
  refine Agrees.enqueue ?_ hsame _ _
  exact ⟨⟨applied, rfl⟩, rfl⟩

omit hsame in
theorem Agrees.dispose : s.dispose.Agrees t.dispose := by
  obtain ⟨applied, calls, rfl⟩ := h.exists_eq
  exact ⟨⟨applied, rfl⟩, rfl⟩

theorem Agrees.drain (loop : Action Flush) :
    (s.drain host loop).1.Agrees (t.drain host' loop).1 ∧
      (s.drain host loop).2 = (t.drain host' loop).2 := by
  have hflush : ∀ (e : Flush) (w v : Controller × List HostCall), w.1.Agrees v.1 →
      (handleFlush host e w).1.Agrees (handleFlush host' e v).1 :=
    fun _ _ _ hworld => hworld.flush hsame
  have hrun := Scheduler.perform_alike (R := fun w v => w.1.Agrees v.1) hflush s.scheduler
    (w := (s.controller, s.calls)) (v := (t.controller, t.calls)) h.controller loop
  unfold Session.drain
  rw [← h.scheduler]
  generalize s.scheduler.perform (handleFlush host) (s.controller, s.calls) loop = m at hrun
  generalize s.scheduler.perform (handleFlush host') (t.controller, t.calls) loop = n at hrun
  cases hrun with
  | intro hworld => exact ⟨⟨hworld, rfl⟩, rfl⟩

theorem Agrees.handle (event : Event) :
    (s.handle host event).1.Agrees (t.handle host' event).1 ∧
      (s.handle host event).2 = (t.handle host' event).2 := by
  have hinputs : s.controller.inputs = t.controller.inputs := by
    obtain ⟨applied, calls, rfl⟩ := h.exists_eq
    rfl
  cases event with
  | update inputs scrolls =>
    obtain ⟨hagrees, hplan⟩ := h.update hsame inputs scrolls
    exact ⟨hagrees, congrArg Reply.plan hplan⟩
  | select text selection =>
    unfold Session.handle
    rw [← hinputs]
    obtain ⟨hagrees, hplan⟩ := h.update hsame
      { s.controller.inputs with text := text, selection := selection } none
    exact ⟨hagrees, congrArg Reply.plan hplan⟩
  | play text playback cursor isPlaying scrolls =>
    unfold Session.handle
    rw [← hinputs]
    obtain ⟨hagrees, hplan⟩ := h.update hsame { s.controller.inputs with
      text := text, playback := playback, cursor := cursor, isPlaying := isPlaying } scrolls
    exact ⟨hagrees, congrArg Reply.plan hplan⟩
  | edit changes text => exact ⟨h.edit hsame changes text, rfl⟩
  | dispose => exact ⟨h.dispose, rfl⟩
  | runPending =>
    obtain ⟨hagrees, hcount⟩ := h.drain hsame .runPending
    exact ⟨hagrees, congrArg Reply.count hcount⟩
  | runFrame =>
    obtain ⟨hagrees, hcount⟩ := h.drain hsame .runFrame
    exact ⟨hagrees, congrArg Reply.count hcount⟩
  | runUntilIdle => exact ⟨(h.drain hsame .runUntilIdle).1, rfl⟩

end

/-! ## Traces -/

end Session

structure View where
  layers : Layers
  inputs : SyncInputs
  mode : Mode
  hasPending : Bool

namespace Session

def view (s : Session) : View :=
  ⟨s.controller.layers, s.controller.inputs, s.controller.mode, s.controller.hasPending⟩

def trace : Session → List (Host × Event) → List (Reply × View)
  | _, [] => []
  | s, (host, event) :: events =>
    let r := s.handle host event
    (r.2, r.1.view) :: r.1.trace events

/-- The trace where calls fail, and the events with them unless the failure is caught. -/
def attempts : Session → List (Host × Event) → List (Except CallFailure Reply × View)
  | _, [] => []
  | s, (host, event) :: events =>
    let r := (attempt host event).exec s
    (r.1, r.2.view) :: r.2.attempts events

variable {s t : Session}

theorem attempts_eq (s : Session) (events : List (Host × Event)) :
    s.attempts events = (s.trace events).map fun o => (.ok o.1, o.2) := by
  induction events generalizing s with
  | nil => rfl
  | cons e events ih =>
    rw [attempts, trace, exec_attempt]
    simp [ih]

theorem Agrees.view (h : s.Agrees t) : s.view = t.view := by
  obtain ⟨applied, calls, rfl⟩ := h.exists_eq
  rfl

def SameEvent (e f : Host × Event) : Prop :=
  e.2 = f.2 ∧ e.1.attachment.isAttached = f.1.attachment.isAttached

theorem Agrees.trace (h : s.Agrees t) {first second : List (Host × Event)}
    (hsame : List.Forall₂ SameEvent first second) : s.trace first = t.trace second := by
  induction hsame generalizing s t with
  | nil => rfl
  | @cons e f first second hsame _ ih =>
    obtain ⟨host, event⟩ := e
    obtain ⟨host', event'⟩ := f
    obtain ⟨rfl, hattached⟩ := hsame
    obtain ⟨hagrees, hreply⟩ := h.handle hattached event
    rw [Session.trace, Session.trace, hreply, hagrees.view, ih hagrees]

/-- No event fails, whatever the calls to the host do; and with the host there at the same times,
its other answers change no reply and nothing that a session tells. -/
theorem trace_hostIndependent (autoScroll : Bool) {first second : List (Host × Event)}
    (hsame : List.Forall₂ SameEvent first second) :
    let s := initial autoScroll
    s.attempts first = (s.trace first).map (fun o => (.ok o.1, o.2)) ∧
      s.attempts second = (s.trace second).map (fun o => (.ok o.1, o.2)) ∧
      s.trace first = s.trace second := by
  intro s
  have hself : s.Agrees s := ⟨.refl _, rfl⟩
  exact ⟨s.attempts_eq first, s.attempts_eq second, hself.trace hsame⟩

/-- One host takes all that it is told, the other one fails the calls and has a viewport without
end. -/
theorem trace_hostIndependent_failingHost :
    let willing (viewport : Viewport) (attachment : Attachment) : Host :=
      ⟨attachment, some 5, some viewport, fun _ => some none, fun _ _ => true, true⟩
    let failing (viewport : Viewport) (attachment : Attachment) : Host :=
      ⟨attachment, none, some viewport, fun _ => none, fun _ _ => false, false⟩
    let inputs : SyncInputs := ⟨['5', '.', '1'], none, some ⟨0, 0⟩, none, true⟩
    let changes : ChangeSet := ⟨[⟨0, 0, 2⟩], 3, firstFault?_eq_none_iff.mp rfl⟩
    let events (there gone : Host) : List (Host × Event) :=
      [(there, .update inputs none), (gone, .update .initial none), (there, .edit changes none),
        (there, .runPending)]
    let first := events (willing ⟨0, 100⟩ .attached) (willing ⟨0, 100⟩ .detached)
    let second := events (failing ⟨0, 1 / 0⟩ .attached) (failing ⟨0, 1 / 0⟩ .failing)
    let s := initial false
    List.Forall₂ SameEvent first second ∧
      (s.run first).calls = [.apply .playback ⟨[⟨2, 5, .playback⟩], 5⟩ true] ∧
      (s.run second).calls = [.apply .playback ⟨[⟨2, 5, .playback⟩], 5⟩ false] ∧
      s.attempts first = (s.trace first).map (fun o => (.ok o.1, o.2)) ∧
      s.attempts second = (s.trace second).map (fun o => (.ok o.1, o.2)) ∧
      s.trace first = s.trace second := by
  intro willing failing inputs changes events first second s
  have hsame : List.Forall₂ SameEvent first second := by
    simp [first, second, events, willing, failing, SameEvent, Attachment.isAttached]
  have hfirst : (s.run first).calls = [.apply .playback ⟨[⟨2, 5, .playback⟩], 5⟩ true] := by
    decide +kernel
  have hsecond : (s.run second).calls = [.apply .playback ⟨[⟨2, 5, .playback⟩], 5⟩ false] := by
    decide +kernel
  exact ⟨hsame, hfirst, hsecond, trace_hostIndependent false hsame⟩

end Session

end Tablature
