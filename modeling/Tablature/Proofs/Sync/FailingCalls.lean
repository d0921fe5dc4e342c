import Tablature.Sync.Session

/-!
# Calls that fail

Any call to the host may fail. Here a failed call ends the work that made it, and
what was done before stays done; only what stands around a call keeps its failure
from going further. Even so no event fails, and each of them does what the
session says it does (`exec_attempt`).
-/

namespace Tablature

inductive CallFailure where
  | attachment
  | documentLength
  | viewport
  | coords
  /-- The viewport leaves no margin. -/
  | margin (error : FloorError)
  | apply (style : Style)
  | scroll
deriving Repr, DecidableEq

/-- Work on a state that a failed call ends. -/
abbrev Calling (σ : Type) := ExceptT CallFailure (StateM σ)

namespace Calling

variable {σ α β : Type}

def exec (work : Calling σ α) (s : σ) : Except CallFailure α × σ := work.run.run s

def ask (failure : CallFailure) : Option α → Calling σ α
  | some a => pure a
  | none => throw failure

def caught (fallback : α) (work : Calling σ α) : Calling σ α := tryCatch work fun _ => pure fallback

@[simp] theorem exec_pure (a : α) (s : σ) : exec (pure a) s = (.ok a, s) := rfl

@[simp] theorem exec_throw (failure : CallFailure) (s : σ) :
    exec (throw failure : Calling σ α) s = (.error failure, s) := rfl

@[simp] theorem exec_get (s : σ) : exec get s = (.ok s, s) := rfl

@[simp] theorem exec_set (s s' : σ) : exec (set s') s = (.ok ⟨⟩, s') := rfl

@[simp] theorem exec_modify (f : σ → σ) (s : σ) : exec (modify f) s = (.ok ⟨⟩, f s) := rfl

@[simp] theorem exec_bind (work : Calling σ α) (next : α → Calling σ β) (s : σ) :
    exec (work >>= next) s =
      match exec work s with
      | (.ok a, s') => exec (next a) s'
      | (.error failure, s') => (.error failure, s') := by
  simp only [exec, ExceptT.run_bind, StateT.run_bind]
  rcases work.run.run s with ⟨_ | a, s'⟩
  · rfl
  · rfl

@[simp] theorem exec_map (f : α → β) (work : Calling σ α) (s : σ) :
    exec (f <$> work) s = ((exec work s).1.map f, (exec work s).2) := by
  simp only [exec, ExceptT.run_map, StateT.run_map]
  rfl

theorem exec_caught (fallback : α) (work : Calling σ α) (s : σ) :
    exec (caught fallback work) s =
      match exec work s with
      | (.ok a, s') => (.ok a, s')
      | (.error _, s') => (.ok fallback, s') := by
  simp only [exec, caught, ExceptT.run_tryCatch, StateT.run_bind]
  rcases work.run.run s with ⟨_ | a, s'⟩
  · rfl
  · rfl

end Calling

open Calling

/-! ## Calling the host -/

namespace Host

def askAttached {σ : Type} (host : Host) : Calling σ Bool :=
  ask .attachment <|
    match host.attachment with
    | .attached => some true
    | .detached => some false
    | .failing => none

def tell (call : HostCall) (accepted : Bool) (failure : CallFailure) :
    Calling (Controller × List HostCall) Unit := do
  modify fun w => (w.1, w.2 ++ [call])
  unless accepted do throw failure

def scrollIntoView (host : Host) (target : ScrollTarget) :
    Calling (Controller × List HostCall) Unit := do
  let length ← ask .documentLength host.documentLength
  let position := min (max target.position 0) length
  let viewport ← ask .viewport host.viewport
  let coord ← ask .coords (host.coordsAt position)
  let policy := target.kind.policy
  if policy.needsScroll coord viewport then
    match policy.margin viewport with
    | .error e => throw (.margin e)
    | .ok margin =>
      tell (.scroll ⟨position, margin⟩ host.acceptsScroll) host.acceptsScroll .scroll

theorem exec_askAttached {σ : Type} (host : Host) (s : σ) :
    exec (caught false host.askAttached) s = (.ok host.attachment.isAttached, s) := by
  unfold askAttached
  cases host.attachment with
  | attached => rfl
  | detached => rfl
  | failing => rfl

theorem exec_tell (call : HostCall) (accepted : Bool) (failure : CallFailure)
    (w : Controller × List HostCall) :
    exec (tell call accepted failure) w =
      (if accepted then .ok () else .error failure, w.1, w.2 ++ [call]) := by
  cases accepted with
  | true => rfl
  | false => rfl

theorem exec_scrollIntoView (host : Host) (target : ScrollTarget) (w : Controller × List HostCall) :
    exec (caught () (host.scrollIntoView target)) w = (.ok (), w.1, w.2 ++ host.scrollTo target) := by
  unfold scrollIntoView scrollTo scrollRequest?
  rw [exec_caught]
  cases host.documentLength with
  | none => simp [ask]
  | some length =>
    cases host.viewport with
    | none => simp [ask]
    | some viewport =>
      cases hcoord : host.coordsAt (min (max target.position 0) length) with
      | none => simp [ask, hcoord]
      | some coord =>
        cases hneeds : target.kind.policy.needsScroll coord viewport with
        | false => simp [ask, hcoord, hneeds]
        | true =>
          cases hmargin : target.kind.policy.margin viewport with
          | error e => simp [ask, hcoord, hneeds, hmargin, Except.toOption]
          | ok margin =>
            cases haccepts : host.acceptsScroll with
            | false => simp [ask, hcoord, hneeds, hmargin, Except.toOption, exec_tell]
            | true => simp [ask, hcoord, hneeds, hmargin, Except.toOption, exec_tell]

end Host

/-! ## Flushing -/

namespace Controller

def callLayers (host : Host) (wanted : Layers) :
    (held : Bool) → List Style → Calling (Controller × List HostCall) Unit
  | _, [] => pure ()
  | held, style :: styles => do
    let s := wanted.get style
    if held && !s.isEmpty then
      callLayers host wanted held styles
    else
      let accepted := host.accepts style s
      let taken ← caught false do
        Host.tell (.apply style s accepted) accepted (.apply style)
        modify fun w => ({ w.1 with applied := w.1.applied.set style s }, w.2)
        return true
      callLayers host wanted (held || (!taken && s.isEmpty)) styles

def callFlush (host : Host) : Calling (Controller × List HostCall) Unit := do
  let (c, _) ← get
  modify fun w => ({ w.1 with flushJob := none, buffer := [], scroll := none }, w.2)
  if ← caught false host.askAttached then
    let layers := c.buffer.foldl Layers.update c.layers
    modify fun w => ({ w.1 with layers := layers }, w.2)
    callLayers host layers false (layers.emptyFirst (layers.changed c.applied))
    match c.scroll with
    | none => pure ()
    | some target => caught () (host.scrollIntoView target)

theorem exec_callLayers (host : Host) (wanted : Layers) (styles : List Style) (held : Bool)
    (c : Controller) (calls : List HostCall) :
    exec (callLayers host wanted held styles) (c, calls) =
      (.ok (), { c with applied := (applyLayers host wanted held c.applied styles).1 },
        calls ++ (applyLayers host wanted held c.applied styles).2) := by
  induction styles generalizing held c calls with
  | nil => simp [callLayers, applyLayers]
  | cons style styles ih =>
    rw [callLayers, applyLayers]
    dsimp only
    split
    · exact ih held c calls
    · rw [exec_bind, exec_caught, exec_bind, Host.exec_tell]
      cases host.accepts style (wanted.get style) with
      | false => simp [ih]
      | true => simp [ih, Except.map]

theorem exec_callFlush (host : Host) (w : Controller × List HostCall) :
    exec (callFlush host) w = (.ok (), Session.handleFlush host .flush w) := by
  obtain ⟨c, calls⟩ := w
  unfold callFlush Session.handleFlush flush
  cases hattached : host.attachment.isAttached with
  | false => simp [Host.exec_askAttached, hattached]
  | true =>
    cases hscroll : c.scroll with
    | none => simp [Host.exec_askAttached, hattached, exec_callLayers, hscroll]
    | some target =>
      simp [Host.exec_askAttached, hattached, exec_callLayers, Host.exec_scrollIntoView, hscroll]

end Controller

/-! ## Events -/

namespace Session

def callEnqueue (host : Host) (t : Transaction) (scroll : Option (Option ScrollTarget)) :
    Calling Session Unit := do
  if ← caught false host.askAttached then
    modify fun s => { s with
      controller := { s.controller with
        buffer := s.controller.buffer ++ [t]
        scroll := scroll.getD s.controller.scroll } }
    if (← get).controller.flushJob.isNone then
      modify fun s => { s with
        controller := { s.controller with flushJob := some s.scheduler.nextJob }
        scheduler := s.scheduler.callSoon flushCallback }

def callUpdate (host : Host) (inputs : SyncInputs) (scrolls : Option Bool) :
    Calling Session Plan := do
  let plan := Plan.ofInputs inputs
  modify fun s => { s with controller := { s.controller with inputs := inputs, mode := plan.mode } }
  let s ← get
  let target := if scrolls.getD s.controller.autoScroll then plan.scroll else none
  callEnqueue host ⟨plan.effects, none, inputs.text.length⟩ (some target)
  return plan

def callEdit (host : Host) (changes : ChangeSet) (text : Option (List Char)) :
    Calling Session Unit := do
  modify fun s => { s with
    controller := { s.controller with
      inputs := { s.controller.inputs with text := text.getD s.controller.inputs.text } } }
  callEnqueue host ⟨[], some changes, changes.newLength⟩ none

/-- Lets the scheduler work. A callback that fails is over, but the loop goes on. -/
def callDrain (host : Host) (loop : Action Flush) : Calling Session Nat := do
  let s ← get
  let flush (_ : Flush) (w : Controller × List HostCall) := (exec (Controller.callFlush host) w).2
  let m := s.scheduler.perform flush (s.controller, s.calls) loop
  set (⟨m.world.1, m.scheduler, m.world.2⟩ : Session)
  return m.returned

def attempt (host : Host) : Event → Calling Session Reply
  | .update inputs scrolls => .plan <$> callUpdate host inputs scrolls
  | .select text selection => do
    let inputs := (← get).controller.inputs
    .plan <$> callUpdate host { inputs with text := text, selection := selection } none
  | .play text playback cursor isPlaying scrolls => do
    let inputs := (← get).controller.inputs
    .plan <$> callUpdate host { inputs with
      text := text, playback := playback, cursor := cursor, isPlaying := isPlaying } scrolls
  | .edit changes text => do
    callEdit host changes text
    return .none
  | .dispose => do
    modify dispose
    return .none
  | .runPending => .count <$> callDrain host .runPending
  | .runFrame => .count <$> callDrain host .runFrame
  | .runUntilIdle => do
    let _ ← callDrain host .runUntilIdle
    return .none

theorem exec_callEnqueue (host : Host) (t : Transaction) (scroll : Option (Option ScrollTarget))
    (s : Session) : exec (callEnqueue host t scroll) s = (.ok (), s.enqueue host t scroll) := by
  unfold callEnqueue enqueue
  cases hattached : host.attachment.isAttached with
  | false => simp [Host.exec_askAttached, hattached]
  | true =>
    cases hjob : s.controller.flushJob with
    | none => simp [Host.exec_askAttached, hattached, hjob]
    | some job => simp [Host.exec_askAttached, hattached, hjob]

theorem exec_callUpdate (host : Host) (inputs : SyncInputs) (scrolls : Option Bool) (s : Session) :
    exec (callUpdate host inputs scrolls) s =
      (.ok (s.update host inputs scrolls).2, (s.update host inputs scrolls).1) := by
  simp [callUpdate, update, exec_callEnqueue, Except.map]

theorem exec_callEdit (host : Host) (changes : ChangeSet) (text : Option (List Char))
    (s : Session) : exec (callEdit host changes text) s = (.ok (), s.edit host changes text) := by
  simp [callEdit, edit, exec_callEnqueue]

theorem exec_callDrain (host : Host) (loop : Action Flush) (s : Session) :
    exec (callDrain host loop) s = (.ok (s.drain host loop).2, (s.drain host loop).1) := by
  have hflush : (fun (_ : Flush) w => (exec (Controller.callFlush host) w).2) = handleFlush host := by
    funext e w
    rw [Controller.exec_callFlush]
  simp [callDrain, drain, hflush, Except.map]

/-- No event fails, whatever calls to the host do, and it does what the session says. -/
theorem exec_attempt (host : Host) (event : Event) (s : Session) :
    exec (attempt host event) s = (.ok (s.handle host event).2, (s.handle host event).1) := by
  cases event with
  | update inputs scrolls => simp [attempt, handle, exec_callUpdate, Except.map]
  | select text selection => simp [attempt, handle, exec_callUpdate, Except.map]
  | play text playback cursor isPlaying scrolls =>
    simp [attempt, handle, exec_callUpdate, Except.map]
  | edit changes text => simp [attempt, handle, exec_callEdit, Except.map]
  | dispose => simp [attempt, handle, Except.map]
  | runPending => simp [attempt, handle, exec_callDrain, Except.map]
  | runFrame => simp [attempt, handle, exec_callDrain, Except.map]
  | runUntilIdle => simp [attempt, handle, exec_callDrain, Except.map]

end Session

end Tablature
