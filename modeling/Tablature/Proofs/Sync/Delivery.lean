import Tablature.Proofs.Sync.Responses

/-!
# The delivery of transactions

A transaction that was buffered waits for the next turn. If the host is there
then, the flush applies it, else it is dropped, as it is when the queued work is
given up before. One flush is scheduled for the whole buffer, so each transaction
is applied once, and in the order of buffering.
-/

namespace Tablature

inductive Fate where
  | waiting
  | applied
  | dropped
deriving Repr, DecidableEq

namespace Event

def fate (host : Host) : Event → Fate
  | .update .. | .select .. | .play .. | .edit .. | .runFrame => .waiting
  | .dispose => .dropped
  | .runPending | .runUntilIdle => if host.attachment.isAttached then .applied else .dropped

def transaction? (current : SyncInputs) : Event → Option Transaction
  | .edit changes _ => some (.edit changes)
  | event => (event.planned? current).map fun planned => .plan planned.1

def inputsAfter (current : SyncInputs) : Event → SyncInputs
  | .edit _ text => { current with text := text.getD current.text }
  | event => ((event.planned? current).map Prod.fst).getD current

section
variable {current : SyncInputs} {event : Event} {inputs : SyncInputs} {scrolls : Option Bool}
  (h : event.planned? current = some (inputs, scrolls))
include h

theorem transaction?_of_planned : event.transaction? current = some (.plan inputs) := by
  cases event with
  | edit => cases h
  | _ => simp [transaction?, h]

theorem inputsAfter_of_planned : event.inputsAfter current = inputs := by
  cases event with
  | edit => cases h
  | _ => simp [inputsAfter, h]

theorem fate_of_planned (host : Host) : event.fate host = .waiting := by
  cases event with
  | update => rfl
  | select => rfl
  | play => rfl
  | _ => cases h

end

section
variable {event : Event} (h : event.isTurn = true)
include h

theorem transaction?_of_isTurn (current : SyncInputs) : event.transaction? current = none := by
  cases event with
  | runPending => rfl
  | runUntilIdle => rfl
  | _ => cases h

theorem inputsAfter_of_isTurn (current : SyncInputs) : event.inputsAfter current = current := by
  cases event with
  | runPending => rfl
  | runUntilIdle => rfl
  | _ => cases h

theorem fate_of_isTurn (host : Host) :
    event.fate host = if host.attachment.isAttached then .applied else .dropped := by
  cases event with
  | runPending => rfl
  | runUntilIdle => rfl
  | _ => cases h

end

end Event

/-! ## The log of a run -/

/-- What becomes of a transaction that is in the buffer when these events begin. -/
def fateOf : List (Host × Event) → Fate
  | [] => .waiting
  | (host, event) :: events =>
    match event.fate host with
    | .waiting => fateOf events
    | .applied => .applied
    | .dropped => .dropped

/-- The transactions that the events put into the buffer, in order, each with what becomes of it. -/
def deliveries : SyncInputs → List (Host × Event) → List (Transaction × Fate)
  | _, [] => []
  | current, (host, event) :: events =>
    let buffered := if host.attachment.isAttached then event.transaction? current else none
    buffered.toList.map (·, fateOf events) ++ deliveries (event.inputsAfter current) events

def withFate (fate : Fate) (log : List (Transaction × Fate)) : List Transaction :=
  (log.filter (·.2 == fate)).map Prod.fst

theorem withFate_append (fate : Fate) (log log' : List (Transaction × Fate)) :
    withFate fate (log ++ log') = withFate fate log ++ withFate fate log' := by
  simp [withFate]

theorem withFate_same (fate : Fate) (ts : List Transaction) :
    withFate fate (ts.map (·, fate)) = ts := by
  induction ts with
  | nil => rfl
  | cons t ts ih =>
    simp only [withFate, List.map_cons] at ih ⊢
    rw [List.filter_cons_of_pos (by simp), List.map_cons, ih]

theorem withFate_other {fate fate' : Fate} (h : fate' ≠ fate) (ts : List Transaction) :
    withFate fate (ts.map (·, fate')) = [] := by
  simp [withFate, h]

namespace Controller

def log (c : Controller) (events : List (Host × Event)) : List (Transaction × Fate) :=
  c.buffer.map (·, fateOf events) ++ deliveries c.inputs events

/-- The log accounts for a controller that began with the given layers: what still waits is in the
buffer, and what was applied made the layers. -/
structure AccountedBy (c : Controller) (layers : Layers) (log : List (Transaction × Fate)) :
    Prop where
  waiting : c.buffer = withFate .waiting log
  applied : c.layers = (withFate .applied log).foldl Layers.update layers

theorem accountedBy_self (c : Controller) : c.AccountedBy c.layers (c.log []) := by
  unfold log
  rw [show deliveries c.inputs [] = [] from rfl, List.append_nil]
  exact ⟨(withFate_same .waiting _).symm, by rw [fateOf, withFate_other (by decide)]; rfl⟩

section
variable {host : Host} {c c' d : Controller} {event : Event} {calls : List HostCall}
  {events : List (Host × Event)}

theorem log_of_waiting (hfate : event.fate host = .waiting) :
    c.log ((host, event) :: events) =
      (c.buffer ++ (if host.attachment.isAttached then event.transaction? c.inputs else none).toList).map
        (·, fateOf events) ++ deliveries (event.inputsAfter c.inputs) events := by
  simp [log, fateOf, deliveries, hfate]

theorem log_of_detached (hfate : event.fate host = .waiting)
    (hdetached : host.attachment.isAttached = false) :
    c.log ((host, event) :: events) =
      { c with inputs := event.inputsAfter c.inputs }.log events := by
  rw [log_of_waiting hfate]
  simp [hdetached, log]

/-- An event that settles the buffer and adds nothing to it. -/
theorem log_of_settled {fate : Fate} (hsettled : fateOf ((host, event) :: events) = fate)
    (hnone : event.transaction? c.inputs = none) (hinputs : event.inputsAfter c.inputs = c.inputs) :
    c.log ((host, event) :: events) = c.buffer.map (·, fate) ++ deliveries c.inputs events := by
  simp [log, deliveries, hsettled, hnone, hinputs]

theorem AccountedBy.of_dropped (h : d.AccountedBy c.layers (deliveries c.inputs events)) :
    d.AccountedBy c.layers (c.buffer.map (·, .dropped) ++ deliveries c.inputs events) := by
  constructor
  · rw [withFate_append, withFate_other (by decide), List.nil_append, h.waiting]
  · rw [withFate_append, withFate_other (by decide), List.nil_append, h.applied]

theorem AccountedBy.of_applied (h : d.AccountedBy c.wanted (deliveries c.inputs events)) :
    d.AccountedBy c.layers (c.buffer.map (·, .applied) ++ deliveries c.inputs events) := by
  constructor
  · rw [withFate_append, withFate_other (by decide), List.nil_append, h.waiting]
  · rw [withFate_append, withFate_same, List.foldl_append, h.applied]
    rfl

theorem log_of_buffer_nil (hc : c.buffer = []) : c.log events = deliveries c.inputs events := by
  simp [log, hc]

theorem Response.accountedBy (h : Response host c event c' calls)
    (hd : d.AccountedBy c'.layers (c'.log events)) :
    d.AccountedBy c.layers (c.log ((host, event) :: events)) := by
  cases h with
  | plan hplan hattached flushJob =>
    rw [log_of_waiting (Event.fate_of_planned hplan host), if_pos hattached,
      Event.transaction?_of_planned hplan, Event.inputsAfter_of_planned hplan]
    exact hd
  | missPlan hplan hdetached =>
    rw [log_of_detached (Event.fate_of_planned hplan host) hdetached,
      Event.inputsAfter_of_planned hplan]
    exact hd
  | edit changes text hattached flushJob =>
    rw [log_of_waiting rfl, if_pos hattached]
    exact hd
  | missEdit changes text hdetached =>
    rw [log_of_detached rfl hdetached]
    exact hd
  | dispose =>
    rw [log_of_settled rfl rfl rfl]
    exact .of_dropped hd
  | flush hturn hpending =>
    have hnone := Event.transaction?_of_isTurn hturn c.inputs
    have hinputs := Event.inputsAfter_of_isTurn hturn c.inputs
    have hfate := Event.fate_of_isTurn hturn host
    rw [log_of_buffer_nil (flush_buffer c host)] at hd
    cases hattached : host.attachment.isAttached with
    | false =>
      have hsettled : fateOf ((host, event) :: events) = .dropped := by
        simp [fateOf, hfate, hattached]
      rw [flush_detached c hattached] at hd
      rw [log_of_settled hsettled hnone hinputs]
      exact .of_dropped hd
    | true =>
      have hsettled : fateOf ((host, event) :: events) = .applied := by
        simp [fateOf, hfate, hattached]
      rw [flush_attached c hattached] at hd
      rw [log_of_settled hsettled hnone hinputs]
      exact .of_applied hd
  | idle hturn hpending =>
    have hbuffer := hasPending_eq_false_iff.mp hpending
    rw [log_of_settled rfl (Event.transaction?_of_isTurn hturn c.inputs)
      (Event.inputsAfter_of_isTurn hturn c.inputs), hbuffer]
    rw [log_of_buffer_nil hbuffer] at hd
    exact hd
  | frame =>
    rw [log_of_waiting rfl]
    simpa [log, Event.transaction?, Event.inputsAfter, Event.planned?] using hd

end

end Controller

theorem Scheduler.Waits.pendingTasks {ε : Type} {s : Scheduler ε} {cb : Callback ε}
    {waiting : Option Nat} (h : s.Waits cb waiting) :
    s.pendingTasks = if waiting.isSome then 1 else 0 := by
  obtain ⟨ids, hids, htasks⟩ := h.tasks
  have hcancelled : ids.countP s.isLive = 0 := by
    rw [List.countP_eq_zero]
    intro id hid
    simp [(hids id hid).isLive]
  rw [Scheduler.pendingTasks, htasks, List.countP_append, hcancelled]
  cases waiting with
  | none => rfl
  | some id => simp [Scheduler.isLive, h.job id rfl]

namespace Session

variable {s : Session}

theorem run_accountedBy (hs : s.Armed) (events : List (Host × Event)) :
    (s.run events).controller.AccountedBy s.controller.layers (s.controller.log events) := by
  induction events generalizing s with
  | nil => exact s.controller.accountedBy_self
  | cons e events ih =>
    obtain ⟨calls, hresponse, -⟩ := handle_response hs e.1 e.2
    exact hresponse.accountedBy (ih (hs.handle e.1 e.2))

/-- One flush is scheduled when work is buffered, and none otherwise. So what was put into the buffer
is applied once and in order by the first turn that follows, unless the host is gone then or the work
is given up before. -/
theorem run_delivers (autoScroll : Bool) (events : List (Host × Event)) :
    let s := (initial autoScroll).run events
    let log := deliveries .initial events
    s.scheduler.pendingTasks = (if s.controller.hasPending then 1 else 0) ∧
      s.controller.buffer = withFate .waiting log ∧
      s.controller.layers = (withFate .applied log).foldl Layers.update .empty := by
  intro s log
  have hs : s.Armed := run_armed (initial_armed autoScroll) events
  obtain ⟨hwaiting, happlied⟩ := run_accountedBy (initial_armed autoScroll) events
  refine ⟨?_, hwaiting, happlied⟩
  rw [hs.waits.pendingTasks, hs.pending]

/-- A selection is given up, the next one is applied with the edit behind it, one is made while the
host goes away, and the last one waits. -/
theorem run_delivers_editedSelection :
    let host : Host := ⟨.attached, none, none, fun _ => none, fun _ _ => true, true⟩
    let gone : Host := { host with attachment := .detached }
    let select : Event := .select "1 2".toList (some ⟨⟨0, 0⟩, ⟨0, 1⟩⟩)
    let edit : Event := .edit ⟨[⟨0, 0, 2⟩], 3, firstFault?_eq_none_iff.mp rfl⟩ none
    let events := [(host, select), (host, .dispose), (host, select), (host, edit),
      (host, .runPending), (host, select), (gone, .runPending), (host, select)]
    let s := (initial true).run events
    (deliveries .initial events).map Prod.snd = [.dropped, .applied, .applied, .dropped, .waiting] ∧
      s.controller.layers = ⟨⟨[⟨2, 5, .selection⟩], 5⟩, ⟨[], 5⟩, ⟨[], 5⟩⟩ ∧
      s.controller.buffer.length = 1 ∧ s.scheduler.pendingTasks = 1 := by
  intro host gone select edit events s
  obtain ⟨htasks, hbuffer, hlayers⟩ := run_delivers true events
  have hwaiting : s.controller.buffer.length = 1 := by
    rw [hbuffer]
    decide +kernel
  have hpending : s.controller.hasPending = true := by
    rw [Controller.hasPending, hbuffer]
    decide +kernel
  refine ⟨by decide, ?_, hwaiting, ?_⟩
  · rw [hlayers]
    decide +kernel
  · rw [htasks, hpending]
    rfl

end Session

end Tablature
