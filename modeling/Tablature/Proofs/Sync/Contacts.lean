import Tablature.Proofs.Sync.FailingCalls
import Tablature.Proofs.Sync.SoundLayers

/-!
# Every call to the host

A flush also asks the host questions, which leave no trace in what the host is
told. Here each call is noted, questions included. A flush first asks whether
the host is there, and makes no other call if it is not.
-/

namespace Tablature

inductive Contact where
  | attachment
  | documentLength
  | viewport
  | coords (position : Int)
  | change (call : HostCall)

def Contact.change? : Contact → Option HostCall
  | .change call => some call
  | .attachment | .documentLength | .viewport | .coords _ => none

theorem Contact.change?_map (calls : List HostCall) :
    (calls.map Contact.change).filterMap Contact.change? = calls := by
  rw [List.filterMap_map]
  exact List.filterMap_some

open Calling

namespace Host

def inquire {α : Type} (contact : Contact) (failure : CallFailure) (answer : Option α) :
    Calling (List Contact) α := do
  modify (· ++ [contact])
  ask failure answer

def inquireAttached (host : Host) : Calling (List Contact) Bool := do
  modify (· ++ [.attachment])
  host.askAttached

def instruct (call : HostCall) (accepted : Bool) (failure : CallFailure) :
    Calling (List Contact) Unit := do
  modify (· ++ [.change call])
  unless accepted do throw failure

def instructScroll (host : Host) (target : ScrollTarget) : Calling (List Contact) Unit := do
  let length ← inquire .documentLength .documentLength host.documentLength
  let position := min (max target.position 0) length
  let viewport ← inquire .viewport .viewport host.viewport
  let coord ← inquire (.coords position) .coords (host.coordsAt position)
  let policy := target.kind.policy
  if policy.needsScroll coord viewport then
    match policy.margin viewport with
    | .error e => throw (.margin e)
    | .ok margin =>
      instruct (.scroll ⟨position, margin⟩ host.acceptsScroll) host.acceptsScroll .scroll

theorem exec_inquireAttached (host : Host) (log : List Contact) :
    exec (caught false host.inquireAttached) log =
      (.ok host.attachment.isAttached, log ++ [.attachment]) := by
  unfold inquireAttached askAttached
  cases host.attachment with
  | attached => rfl
  | detached => rfl
  | failing => rfl

theorem exec_instruct (call : HostCall) (accepted : Bool) (failure : CallFailure)
    (log : List Contact) :
    exec (instruct call accepted failure) log =
      (if accepted then .ok () else .error failure, log ++ [.change call]) := by
  cases accepted with
  | true => rfl
  | false => rfl

theorem exec_instructScroll (host : Host) (target : ScrollTarget) (log : List Contact) :
    ∃ contacts, exec (caught () (host.instructScroll target)) log = (.ok (), log ++ contacts) ∧
      contacts.filterMap Contact.change? = host.scrollTo target := by
  unfold instructScroll scrollTo scrollRequest?
  rw [exec_caught]
  cases host.documentLength with
  | none => exact ⟨[.documentLength], rfl, rfl⟩
  | some length =>
    cases host.viewport with
    | none => exact ⟨[.documentLength, .viewport], by simp [inquire, ask], rfl⟩
    | some viewport =>
      let position := min (max target.position 0) length
      let asked : List Contact := [.documentLength, .viewport, .coords position]
      have hasked : asked.filterMap Contact.change? = [] := rfl
      cases hcoord : host.coordsAt position with
      | none =>
        exact ⟨asked, by simp [inquire, ask, hcoord, asked, position],
          by simp [hcoord, position, hasked]⟩
      | some coord =>
        cases hneeds : target.kind.policy.needsScroll coord viewport with
        | false =>
          exact ⟨asked, by simp [inquire, ask, hcoord, hneeds, asked, position],
            by simp [hcoord, hneeds, position, hasked]⟩
        | true =>
          cases hmargin : target.kind.policy.margin viewport with
          | error e =>
            exact ⟨asked, by simp [inquire, ask, hcoord, hneeds, hmargin, asked, position],
              by simp [hmargin, hasked, Except.toOption]⟩
          | ok margin =>
            refine ⟨asked ++ [.change (.scroll ⟨position, margin⟩ host.acceptsScroll)], ?_, ?_⟩
            · cases haccepts : host.acceptsScroll with
              | false => simp [inquire, ask, hcoord, hneeds, hmargin, exec_instruct, asked, position]
              | true => simp [inquire, ask, hcoord, hneeds, hmargin, exec_instruct, asked, position]
            · simp [hcoord, hneeds, hmargin, position, hasked, Except.toOption, Contact.change?]

end Host

namespace Controller

def instructLayers (host : Host) (wanted : Layers) :
    (held : Bool) → (applied : Layers) → List Style → Calling (List Contact) Layers
  | _, applied, [] => pure applied
  | held, applied, style :: styles => do
    let s := wanted.get style
    if held && !s.isEmpty then
      instructLayers host wanted held applied styles
    else
      let accepted ← caught false do
        Host.instruct (.apply style s (host.accepts style s)) (host.accepts style s) (.apply style)
        return true
      instructLayers host wanted (held || (!accepted && s.isEmpty))
        (if accepted then applied.set style s else applied) styles

def instructFlush (host : Host) (c : Controller) : Calling (List Contact) Controller := do
  let taken := { c with flushJob := none, buffer := [], scroll := none }
  if ← caught false host.inquireAttached then
    let layers := c.buffer.foldl Layers.update c.layers
    let applied ← instructLayers host layers false c.applied
      (layers.emptyFirst (layers.changed c.applied))
    match c.scroll with
    | none => pure ()
    | some target => caught () (host.instructScroll target)
    return { taken with layers := layers, applied := applied }
  else
    return taken

theorem exec_instructLayers (host : Host) (wanted : Layers) (styles : List Style) (held : Bool)
    (applied : Layers) (log : List Contact) :
    exec (instructLayers host wanted held applied styles) log =
      (.ok (applyLayers host wanted held applied styles).1,
        log ++ (applyLayers host wanted held applied styles).2.map .change) := by
  induction styles generalizing held applied log with
  | nil => simp [instructLayers, applyLayers]
  | cons style styles ih =>
    rw [instructLayers, applyLayers]
    dsimp only
    split
    · exact ih held applied log
    · rw [exec_bind, exec_caught, exec_bind, Host.exec_instruct]
      cases host.accepts style (wanted.get style) with
      | false => simp [ih]
      | true => simp [ih]

theorem exec_instructFlush (host : Host) (c : Controller) :
    ∃ contacts, exec (instructFlush host c) [] = (.ok (c.flush host).1, contacts) ∧
      contacts.filterMap Contact.change? = (c.flush host).2 ∧
      (host.attachment.isAttached = false → contacts = [.attachment]) := by
  cases hattached : host.attachment.isAttached with
  | false =>
    rw [flush_detached c hattached]
    refine ⟨[.attachment], ?_, rfl, fun _ => rfl⟩
    simp [instructFlush, Host.exec_inquireAttached, hattached]
  | true =>
    rw [flush_attached c hattached]
    generalize hlayers : applyLayers host c.wanted false c.applied
      (c.wanted.emptyFirst (c.wanted.changed c.applied)) = layers
    have hattachment : Contact.change? .attachment = none := rfl
    rw [wanted] at hlayers
    cases hscroll : c.scroll with
    | none =>
      refine ⟨.attachment :: layers.2.map .change, ?_, ?_, Bool.noConfusion⟩
      · simp [instructFlush, Host.exec_inquireAttached, hattached, exec_instructLayers, hscroll,
          hlayers, wanted, Except.map]
      · rw [List.filterMap_cons_none hattachment, Contact.change?_map]
        simp
    | some target =>
      obtain ⟨contacts, hexec, hcontacts⟩ :=
        host.exec_instructScroll target (.attachment :: layers.2.map .change)
      refine ⟨.attachment :: layers.2.map .change ++ contacts, ?_, ?_, Bool.noConfusion⟩
      · simp [instructFlush, Host.exec_inquireAttached, hattached, exec_instructLayers, hscroll,
          hlayers, wanted, hexec, Except.map]
      · rw [List.filterMap_append, List.filterMap_cons_none hattachment, Contact.change?_map,
          hcontacts]
        simp

end Controller

end Tablature
