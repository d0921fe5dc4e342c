import Tablature.Schedule.Machine
import Tablature.Score.Lookup
import Tablature.Sync.Host

/-!
# Following the editor's cursor

A tracker reports the bar of the editor's cursor to the score. It looks once per
frame, at the latest of the moves since the frame before, and reports only a bar
that differs from the one reported last.
-/

namespace Tablature

structure EditorUpdate where
  text : List Char
  /-- The offset of the cursor. -/
  head : Int
  selectionSet : Bool
  docChanged : Bool
deriving Repr, DecidableEq

def EditorUpdate.isRelevant (u : EditorUpdate) : Bool := u.selectionSet || u.docChanged

def EditorUpdate.cursor (u : EditorUpdate) (fromEdit : Bool) : Cursor :=
  let p := offsetToLineCol u.text u.head
  { locate u.text p.1 p.2 with fromEdit := fromEdit }

inductive Recompute where
  | recompute
deriving Repr, DecidableEq

structure Tracker where
  /-- The latest relevant update since the last frame. -/
  latest : Option EditorUpdate
  /-- Whether an update since the last frame was an edit. -/
  fromEdit : Bool
  frameJob : Option Nat
  lastEmitted : Option Cursor
  emitted : List Cursor

namespace Tracker

def initial : Tracker := ⟨none, false, none, none, []⟩

def emit (t : Tracker) (c : Cursor) : Tracker :=
  if t.lastEmitted.any (·.position.bar == c.position.bar) then t
  else { t with lastEmitted := some c, emitted := t.emitted ++ [c] }

/-- Looks at the latest update, unless the editor is gone. There may be nobody to ask. -/
def recompute (t : Tracker) (attachment : Option Attachment) : Tracker :=
  let taken := { t with frameJob := none, latest := none, fromEdit := false }
  match t.latest with
  | none => taken
  | some u => if attachment.all Attachment.isAttached then taken.emit (u.cursor t.fromEdit) else taken

end Tracker

inductive TrackerEvent where
  | notify (update : EditorUpdate)
  /-- The last report is forgotten. -/
  | reset
  /-- Updates since the last frame are given up. -/
  | dispose
  | runPending
  | runFrame
  | runUntilIdle

structure TrackerSession where
  tracker : Tracker
  scheduler : Scheduler Recompute

namespace TrackerSession

def initial : TrackerSession := ⟨.initial, .empty⟩

def recomputeCallback : Callback Recompute := ⟨"recompute", [.perform .recompute]⟩

def notify (s : TrackerSession) (u : EditorUpdate) : TrackerSession :=
  if !u.isRelevant then s
  else
    let t := { s.tracker with latest := some u, fromEdit := s.tracker.fromEdit || u.docChanged }
    match t.frameJob with
    | some _ => { s with tracker := t }
    | none =>
      ⟨{ t with frameJob := some s.scheduler.nextJob }, s.scheduler.requestFrame recomputeCallback⟩

def reset (s : TrackerSession) : TrackerSession :=
  { s with tracker := { s.tracker with lastEmitted := none } }

def dispose (s : TrackerSession) : TrackerSession :=
  ⟨{ s.tracker with frameJob := none, latest := none, fromEdit := false },
    (s.tracker.frameJob.map s.scheduler.cancel).getD s.scheduler⟩

def drain (s : TrackerSession) (attachment : Option Attachment) (loop : Action Recompute) :
    TrackerSession × Nat :=
  let m := s.scheduler.perform (fun _ (t : Tracker) => t.recompute attachment) s.tracker loop
  (⟨m.world, m.scheduler⟩, m.returned)

/-- What an event does while the attachment is as given; the second part is the count of a loop. -/
def handle (s : TrackerSession) (attachment : Option Attachment) :
    TrackerEvent → TrackerSession × Option Nat
  | .notify u => (s.notify u, none)
  | .reset => (s.reset, none)
  | .dispose => (s.dispose, none)
  | .runPending =>
    let r := s.drain attachment .runPending
    (r.1, some r.2)
  | .runFrame =>
    let r := s.drain attachment .runFrame
    (r.1, some r.2)
  | .runUntilIdle => ((s.drain attachment .runUntilIdle).1, none)

def run (s : TrackerSession) (events : List (Option Attachment × TrackerEvent)) : TrackerSession :=
  events.foldl (fun s e => (s.handle e.1 e.2).1) s

end TrackerSession

end Tablature
