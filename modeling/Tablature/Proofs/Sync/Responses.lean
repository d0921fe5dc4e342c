import Tablature.Proofs.Schedule.TaskLoop
import Tablature.Proofs.Sync.SoundLayers

/-!
# What a session does about an event

A session keeps its flush in step with its buffer: one is scheduled exactly when
work is buffered. So it can be said what an event makes of the controller
without another look at the scheduler: work is buffered, or missed while the host
is gone, and the next turn flushes the buffer unless it is given up before.
-/

namespace Tablature

def Transaction.plan (inputs : SyncInputs) : Transaction :=
  ⟨(Plan.ofInputs inputs).effects, none, inputs.text.length⟩

def Transaction.edit (changes : ChangeSet) : Transaction := ⟨[], some changes, changes.newLength⟩

namespace Event

def isTurn : Event → Bool
  | .runPending | .runUntilIdle => true
  | .update .. | .select .. | .play .. | .edit .. | .dispose | .runFrame => false

/-- The inputs that an event plans from, and what it says about scrolling. -/
def planned? (current : SyncInputs) : Event → Option (SyncInputs × Option Bool)
  | .update inputs scrolls => some (inputs, scrolls)
  | .select text selection => some ({ current with text := text, selection := selection }, none)
  | .play text playback cursor isPlaying scrolls =>
    some ({ current with
      text := text, playback := playback, cursor := cursor, isPlaying := isPlaying }, scrolls)
  | .edit .. | .dispose | .runPending | .runFrame | .runUntilIdle => none

end Event

namespace Controller

inductive Response (host : Host) (c : Controller) : Event → Controller → List HostCall → Prop where
  | plan {event : Event} {inputs : SyncInputs} {scrolls : Option Bool}
    (hplan : event.planned? c.inputs = some (inputs, scrolls))
    (hattached : host.attachment.isAttached = true) (flushJob : Option Nat) :
    Response host c event
      { c with
        inputs := inputs, mode := (Plan.ofInputs inputs).mode
        buffer := c.buffer ++ [.plan inputs]
        scroll := if scrolls.getD c.autoScroll then (Plan.ofInputs inputs).scroll else none
        flushJob := flushJob } []
  | missPlan {event : Event} {inputs : SyncInputs} {scrolls : Option Bool}
    (hplan : event.planned? c.inputs = some (inputs, scrolls))
    (hdetached : host.attachment.isAttached = false) :
    Response host c event { c with inputs := inputs, mode := (Plan.ofInputs inputs).mode } []
  | edit (changes : ChangeSet) (text : Option (List Char))
    (hattached : host.attachment.isAttached = true) (flushJob : Option Nat) :
    Response host c (.edit changes text)
      { c with
        inputs := { c.inputs with text := text.getD c.inputs.text }
        buffer := c.buffer ++ [.edit changes]
        flushJob := flushJob } []
  | missEdit (changes : ChangeSet) (text : Option (List Char))
    (hdetached : host.attachment.isAttached = false) :
    Response host c (.edit changes text)
      { c with inputs := { c.inputs with text := text.getD c.inputs.text } } []
  | dispose : Response host c .dispose { c with flushJob := none, buffer := [], scroll := none } []
  | flush {event : Event} (hturn : event.isTurn = true) (hpending : c.hasPending = true) :
    Response host c event (c.flush host).1 (c.flush host).2
  | idle {event : Event} (hturn : event.isTurn = true) (hnone : c.hasPending = false) :
    Response host c event c []
  | frame : Response host c .runFrame c []

theorem flush_buffer (c : Controller) (host : Host) : (c.flush host).1.buffer = [] := by
  cases hattached : host.attachment.isAttached with
  | false => rw [flush_detached c hattached]
  | true => rw [flush_attached c hattached]

theorem flush_flushJob (c : Controller) (host : Host) : (c.flush host).1.flushJob = none := by
  cases hattached : host.attachment.isAttached with
  | false => rw [flush_detached c hattached]
  | true => rw [flush_attached c hattached]

theorem wanted_buffered (c : Controller) (inputs : SyncInputs) (mode : Mode) (t : Transaction)
    (scroll : Option ScrollTarget) (flushJob : Option Nat) :
    wanted { c with
      inputs := inputs, mode := mode, buffer := c.buffer ++ [t], scroll := scroll
      flushJob := flushJob } = c.wanted.update t := by
  simp [wanted]

theorem wanted_of_buffer_nil {c : Controller} (h : c.buffer = []) : c.wanted = c.layers := by
  simp [wanted, h]

theorem hasPending_eq_false_iff {c : Controller} : c.hasPending = false ↔ c.buffer = [] := by
  simp [hasPending]

end Controller

namespace Session

/-- A flush is scheduled exactly when work is buffered. -/
structure Armed (s : Session) : Prop where
  waits : s.scheduler.Waits flushCallback s.controller.flushJob
  pending : s.controller.hasPending = s.controller.flushJob.isSome

theorem initial_armed (autoScroll : Bool) : (initial autoScroll).Armed where
  waits := .empty
  pending := rfl

variable {s : Session}

theorem Armed.informed (hs : s.Armed) (inputs : SyncInputs) (mode : Mode) :
    Armed { s with controller := { s.controller with inputs := inputs, mode := mode } } :=
  ⟨hs.waits, hs.pending⟩

/-! ## Buffering work -/

theorem enqueue_detached (s : Session) {host : Host} (h : host.attachment.isAttached = false)
    (t : Transaction) (scroll : Option (Option ScrollTarget)) : s.enqueue host t scroll = s := by
  simp [enqueue, h]

theorem enqueue_attached (s : Session) {host : Host} (h : host.attachment.isAttached = true)
    (t : Transaction) (scroll : Option (Option ScrollTarget)) :
    ∃ flushJob, (s.enqueue host t scroll).controller =
        { s.controller with
          buffer := s.controller.buffer ++ [t]
          scroll := scroll.getD s.controller.scroll
          flushJob := flushJob } ∧
      (s.enqueue host t scroll).calls = s.calls := by
  unfold enqueue
  simp only [h]
  cases hjob : s.controller.flushJob with
  | none => exact ⟨some s.scheduler.nextJob, by simp, by simp⟩
  | some job => exact ⟨some job, by simp [← hjob], by simp⟩

theorem Armed.enqueue (hs : s.Armed) (host : Host) (t : Transaction)
    (scroll : Option (Option ScrollTarget)) : (s.enqueue host t scroll).Armed := by
  cases hattached : host.attachment.isAttached with
  | false => rwa [enqueue_detached s hattached]
  | true =>
    have hwaits := hs.waits
    unfold Session.enqueue
    simp only [hattached]
    cases hjob : s.controller.flushJob with
    | none =>
      rw [hjob] at hwaits
      exact ⟨hwaits.callSoon, by simp [Controller.hasPending]⟩
    | some job => exact ⟨by simpa [hjob] using hwaits, by simp [Controller.hasPending]⟩

theorem update_response (s : Session) (host : Host) {event : Event} {inputs : SyncInputs}
    {scrolls : Option Bool} (hplan : event.planned? s.controller.inputs = some (inputs, scrolls)) :
    s.controller.Response host event (s.update host inputs scrolls).1.controller [] ∧
      (s.update host inputs scrolls).1.calls = s.calls := by
  let c := { s.controller with inputs := inputs, mode := (Plan.ofInputs inputs).mode }
  let scroll := if scrolls.getD c.autoScroll then (Plan.ofInputs inputs).scroll else none
  show s.controller.Response host event
      (enqueue { s with controller := c } host (.plan inputs) (some scroll)).controller [] ∧
    (enqueue { s with controller := c } host (.plan inputs) (some scroll)).calls = s.calls
  cases hattached : host.attachment.isAttached with
  | false =>
    rw [enqueue_detached _ hattached]
    exact ⟨.missPlan hplan hattached, rfl⟩
  | true =>
    obtain ⟨flushJob, hc, hcalls⟩ :=
      enqueue_attached { s with controller := c } hattached (.plan inputs) (some scroll)
    rw [hc]
    exact ⟨.plan hplan hattached flushJob, hcalls⟩

theorem edit_response (s : Session) (host : Host) (changes : ChangeSet) (text : Option (List Char)) :
    s.controller.Response host (.edit changes text) (s.edit host changes text).controller [] ∧
      (s.edit host changes text).calls = s.calls := by
  let inputs := { s.controller.inputs with text := text.getD s.controller.inputs.text }
  let c := { s.controller with inputs := inputs }
  show s.controller.Response host (.edit changes text)
      (enqueue { s with controller := c } host (.edit changes) none).controller [] ∧
    (enqueue { s with controller := c } host (.edit changes) none).calls = s.calls
  cases hattached : host.attachment.isAttached with
  | false =>
    rw [enqueue_detached _ hattached]
    exact ⟨.missEdit changes text hattached, rfl⟩
  | true =>
    obtain ⟨flushJob, hc, hcalls⟩ :=
      enqueue_attached { s with controller := c } hattached (.edit changes) none
    rw [hc]
    exact ⟨.edit changes text hattached flushJob, hcalls⟩

/-! ## Turns -/

section
variable (hs : s.Armed) (host : Host) {loop : Action Flush}
  (hloop : loop = .runPending ∨ loop = .runUntilIdle)
include hs hloop

theorem drain_idle (hnone : s.controller.hasPending = false) :
    (s.drain host loop).1.controller = s.controller ∧ (s.drain host loop).1.calls = s.calls ∧
      (s.drain host loop).1.scheduler = s.scheduler.settle none := by
  have hjob : s.controller.flushJob = none := by simpa [hnone] using hs.pending
  obtain ⟨hworld, hscheduler⟩ := hs.waits.perform_turn (handleFlush host) hloop s.world
  rw [hjob] at hworld hscheduler
  obtain ⟨hc, hcalls⟩ := Prod.ext_iff.mp hworld
  exact ⟨hc, hcalls, hscheduler⟩

theorem drain_flush (hpending : s.controller.hasPending = true) :
    (s.drain host loop).1.controller = (s.controller.flush host).1 ∧
      (s.drain host loop).1.calls = s.calls ++ (s.controller.flush host).2 ∧
      (s.drain host loop).1.scheduler = s.scheduler.settle s.controller.flushJob := by
  have hjob : s.controller.flushJob.isSome = true := by rw [← hs.pending, hpending]
  obtain ⟨job, hjob⟩ := Option.isSome_iff_exists.mp hjob
  obtain ⟨hworld, hscheduler⟩ := hs.waits.perform_turn (handleFlush host) hloop s.world
  rw [hjob] at hworld
  change _ = ((s.controller.flush host).1, s.calls ++ (s.controller.flush host).2) at hworld
  obtain ⟨hc, hcalls⟩ := Prod.ext_iff.mp hworld
  exact ⟨hc, hcalls, hscheduler⟩

theorem Armed.drain : (s.drain host loop).1.Armed := by
  have hsettle := hs.waits.settle
  cases hpending : s.controller.hasPending with
  | false =>
    have hjob : s.controller.flushJob = none := by simpa [hpending] using hs.pending
    obtain ⟨hc, -, hscheduler⟩ := drain_idle hs host hloop hpending
    constructor
    · rw [hc, hscheduler, hjob]
      rwa [hjob] at hsettle
    · rw [hc, hs.pending]
  | true =>
    obtain ⟨hc, -, hscheduler⟩ := drain_flush hs host hloop hpending
    constructor
    · rwa [hc, hscheduler, Controller.flush_flushJob]
    · rw [hc, Controller.flush_flushJob, Controller.hasPending, Controller.flush_buffer]
      rfl

theorem drain_response {event : Event} (hturn : event.isTurn = true) :
    ∃ calls, s.controller.Response host event (s.drain host loop).1.controller calls ∧
      (s.drain host loop).1.calls = s.calls ++ calls := by
  cases hpending : s.controller.hasPending with
  | false =>
    obtain ⟨hc, hcalls, -⟩ := drain_idle hs host hloop hpending
    exact ⟨[], by rw [hc]; exact .idle hturn hpending, by rw [hcalls, List.append_nil]⟩
  | true =>
    obtain ⟨hc, hcalls, -⟩ := drain_flush hs host hloop hpending
    exact ⟨_, by rw [hc]; exact .flush hturn hpending, hcalls⟩

end

theorem drain_runFrame (hs : s.Armed) (host : Host) : (s.drain host .runFrame).1 = s := by
  obtain ⟨hworld, hscheduler⟩ := hs.waits.perform_runFrame (handleFlush host) s.world
  simp only [world] at hworld hscheduler
  simp only [drain, hworld, hscheduler]

theorem Armed.dispose (hs : s.Armed) : s.dispose.Armed := by
  have hwaits := hs.waits
  refine ⟨?_, rfl⟩
  unfold Session.dispose
  cases hjob : s.controller.flushJob with
  | none =>
    rw [hjob] at hwaits
    exact hwaits
  | some job =>
    rw [hjob] at hwaits
    exact hwaits.cancel

def flushed (s : Session) (host : Host) : Controller × List HostCall :=
  handleFlush host .flush s.world

theorem handle_flushed (hs : s.Armed) (host : Host) {event : Event} (hturn : event.isTurn = true)
    (hpending : s.controller.hasPending = true) :
    (s.handle host event).1.world = s.flushed host := by
  cases event with
  | runPending =>
    obtain ⟨hc, hcalls, -⟩ := drain_flush hs host (.inl rfl) hpending
    exact Prod.ext hc hcalls
  | runUntilIdle =>
    obtain ⟨hc, hcalls, -⟩ := drain_flush hs host (.inr rfl) hpending
    exact Prod.ext hc hcalls
  | _ => cases hturn

/-! ## Events and runs -/

def Reachable (s : Session) : Prop :=
  ∃ (autoScroll : Bool) (events : List (Host × Event)), (initial autoScroll).run events = s

theorem Armed.handle (hs : s.Armed) (host : Host) (event : Event) :
    (s.handle host event).1.Armed := by
  cases event with
  | update inputs scrolls => exact (hs.informed inputs _).enqueue host _ _
  | select text selection => exact (hs.informed _ _).enqueue host _ _
  | play text playback cursor isPlaying scrolls => exact (hs.informed _ _).enqueue host _ _
  | edit changes text => exact (hs.informed _ _).enqueue host _ _
  | dispose => exact hs.dispose
  | runPending => exact hs.drain host (.inl rfl)
  | runFrame =>
    show (s.drain host .runFrame).1.Armed
    rwa [drain_runFrame hs]
  | runUntilIdle => exact hs.drain host (.inr rfl)

theorem run_armed (hs : s.Armed) (events : List (Host × Event)) : (s.run events).Armed := by
  induction events generalizing s with
  | nil => exact hs
  | cons event events ih => exact ih (hs.handle event.1 event.2)

theorem Reachable.armed (hs : s.Reachable) : s.Armed := by
  obtain ⟨autoScroll, events, rfl⟩ := hs
  exact run_armed (initial_armed autoScroll) events

theorem handle_response (hs : s.Armed) (host : Host) (event : Event) :
    ∃ calls, s.controller.Response host event (s.handle host event).1.controller calls ∧
      (s.handle host event).1.calls = s.calls ++ calls := by
  -- All events but the two turns make no call.
  have hquiet : ∀ s' : Session, s.controller.Response host event s'.controller [] ∧
      s'.calls = s.calls → ∃ calls, s.controller.Response host event s'.controller calls ∧
        s'.calls = s.calls ++ calls :=
    fun s' h => ⟨[], h.1, by rw [h.2, List.append_nil]⟩
  cases event with
  | update inputs scrolls => exact hquiet _ (update_response s host rfl)
  | select text selection => exact hquiet _ (update_response s host rfl)
  | play text playback cursor isPlaying scrolls => exact hquiet _ (update_response s host rfl)
  | edit changes text => exact hquiet _ (edit_response s host changes text)
  | dispose => exact hquiet _ ⟨.dispose, rfl⟩
  | runPending => exact drain_response hs host (.inl rfl) rfl
  | runFrame =>
    refine hquiet (s.drain host .runFrame).1 ?_
    rw [drain_runFrame hs]
    exact ⟨.frame, rfl⟩
  | runUntilIdle => exact drain_response hs host (.inr rfl) rfl

/-- What holds of a new controller, and after each event if it held before, always holds. -/
theorem Reachable.invariant (hs : s.Reachable) {P : Controller → Prop}
    (hinitial : ∀ autoScroll, P (.initial autoScroll))
    (hstep : ∀ {host c event c' calls}, Controller.Response host c event c' calls → P c → P c') :
    P s.controller := by
  obtain ⟨autoScroll, events, rfl⟩ := hs
  suffices ∀ s : Session, s.Armed → P s.controller → P (s.run events).controller from
    this _ (initial_armed autoScroll) (hinitial autoScroll)
  induction events with
  | nil => exact fun _ _ h => h
  | cons e events ih =>
    intro s hs hc
    obtain ⟨calls, hresponse, -⟩ := handle_response hs e.1 e.2
    exact ih _ (hs.handle e.1 e.2) (hstep hresponse hc)

end Session

end Tablature
