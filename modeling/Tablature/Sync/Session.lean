import Tablature.Schedule.Machine
import Tablature.Sync.Controller

/-!
# Sessions

A session is a controller with a scheduler of its own. Events of the score, the
player and the document queue work; the first piece of work in an empty buffer
also schedules a flush for the next turn. While the host is gone, work is
dropped.
-/

namespace Tablature

inductive Flush where
  | flush
deriving Repr, DecidableEq

inductive Event where
  /-- The full state of score and player; the flag overrides the default for scrolling. -/
  | update (inputs : SyncInputs) (scrolls : Option Bool)
  /-- A selection was made in the score, or given up. -/
  | select (text : List Char) (selection : Option Selection)
  /-- The player moved, started or stopped. -/
  | play (text : List Char) (playback cursor : Option ScorePosition) (isPlaying : Bool)
      (scrolls : Option Bool)
  /-- The document was edited; the new text may be known. -/
  | edit (changes : ChangeSet) (text : Option (List Char))
  /-- Queued work is given up. -/
  | dispose
  | runPending
  | runFrame
  | runUntilIdle

inductive Reply where
  | none
  | plan (plan : Plan)
  | count (ran : Nat)

structure Session where
  controller : Controller
  scheduler : Scheduler Flush
  calls : List HostCall

namespace Session

def initial (autoScroll : Bool) : Session := ⟨.initial autoScroll, .empty, []⟩

def flushCallback : Callback Flush := ⟨"flush", [.perform .flush]⟩

def handleFlush (host : Host) (_ : Flush) (w : Controller × List HostCall) :
    Controller × List HostCall :=
  let r := w.1.flush host
  (r.1, w.2 ++ r.2)

/-- Buffers a transaction and, where it has a say in it, the scroll. -/
def enqueue (s : Session) (host : Host) (t : Transaction)
    (scroll : Option (Option ScrollTarget)) : Session :=
  if !host.attachment.isAttached then s
  else
    let c := { s.controller with
      buffer := s.controller.buffer ++ [t]
      scroll := scroll.getD s.controller.scroll }
    match c.flushJob with
    | some _ => { s with controller := c }
    | none =>
      { s with
        controller := { c with flushJob := some s.scheduler.nextJob }
        scheduler := s.scheduler.callSoon flushCallback }

def update (s : Session) (host : Host) (inputs : SyncInputs) (scrolls : Option Bool) :
    Session × Plan :=
  let plan := Plan.ofInputs inputs
  let s' := { s with controller := { s.controller with inputs := inputs, mode := plan.mode } }
  let target := if scrolls.getD s.controller.autoScroll then plan.scroll else none
  (s'.enqueue host ⟨plan.effects, none, inputs.text.length⟩ (some target), plan)

def edit (s : Session) (host : Host) (changes : ChangeSet) (text : Option (List Char)) : Session :=
  let inputs := { s.controller.inputs with text := text.getD s.controller.inputs.text }
  let s' := { s with controller := { s.controller with inputs := inputs } }
  s'.enqueue host ⟨[], some changes, changes.newLength⟩ none

def dispose (s : Session) : Session :=
  { s with
    controller := { s.controller with flushJob := none, buffer := [], scroll := none }
    scheduler := (s.controller.flushJob.map s.scheduler.cancel).getD s.scheduler }

def drain (s : Session) (host : Host) (loop : Action Flush) : Session × Nat :=
  let m := s.scheduler.perform (handleFlush host) (s.controller, s.calls) loop
  (⟨m.world.1, m.scheduler, m.world.2⟩, m.returned)

/-- What an event does while the host answers as given. -/
def handle (s : Session) (host : Host) : Event → Session × Reply
  | .update inputs scrolls =>
    let r := s.update host inputs scrolls
    (r.1, .plan r.2)
  | .select text selection =>
    let r := s.update host { s.controller.inputs with text := text, selection := selection } none
    (r.1, .plan r.2)
  | .play text playback cursor isPlaying scrolls =>
    let inputs := { s.controller.inputs with
      text := text, playback := playback, cursor := cursor, isPlaying := isPlaying }
    let r := s.update host inputs scrolls
    (r.1, .plan r.2)
  | .edit changes text => (s.edit host changes text, .none)
  | .dispose => (s.dispose, .none)
  | .runPending =>
    let r := s.drain host .runPending
    (r.1, .count r.2)
  | .runFrame =>
    let r := s.drain host .runFrame
    (r.1, .count r.2)
  | .runUntilIdle => ((s.drain host .runUntilIdle).1, .none)

def run (s : Session) (events : List (Host × Event)) : Session :=
  events.foldl (fun s e => (s.handle e.1 e.2).1) s

end Session

end Tablature
