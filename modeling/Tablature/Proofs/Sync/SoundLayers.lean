import Mathlib.Logic.Relation
import Tablature.Proofs.Schedule.Steps
import Tablature.Proofs.Sync.PlannedLayers
import Tablature.Sync.Session

/-!
# The layers of a session

Whatever happens to a session, its controller and the log of its calls change by
four kinds of steps only. An invariant of the steps is an invariant of every
run.

A controller is sound when its layers are and only transactions that a session
issues wait in its buffer. Every step keeps a controller sound, so the layers
are sound in every run.
-/

namespace Tablature

/-! ## Steps -/

open Relation

inductive Controller.Step : Controller × List HostCall → Controller × List HostCall → Prop where
  | plan (c : Controller) (calls : List HostCall) (inputs : SyncInputs) (mode : Mode) :
    Step (c, calls) ({ c with inputs := inputs, mode := mode }, calls)
  | buffer (c : Controller) (calls : List HostCall) {t : Transaction} (issued : t.Issued)
      (scroll : Option ScrollTarget) (flushJob : Option Nat) :
    Step (c, calls)
      ({ c with buffer := c.buffer ++ [t], scroll := scroll, flushJob := flushJob }, calls)
  | dispose (c : Controller) (calls : List HostCall) :
    Step (c, calls) ({ c with flushJob := none, buffer := [], scroll := none }, calls)
  | flush (c : Controller) (calls : List HostCall) (host : Host) :
    Step (c, calls) ((c.flush host).1, calls ++ (c.flush host).2)

namespace Session

def world (s : Session) : Controller × List HostCall := (s.controller, s.calls)

theorem enqueue_steps (s : Session) (host : Host) {t : Transaction} (issued : t.Issued)
    (scroll : Option (Option ScrollTarget)) :
    ReflTransGen Controller.Step s.world (s.enqueue host t scroll).world := by
  unfold enqueue
  split
  · exact .refl
  · dsimp only
    split
    · exact .single (.buffer s.controller s.calls issued _ _)
    · exact .single (.buffer s.controller s.calls issued _ _)

theorem update_steps (s : Session) (host : Host) (inputs : SyncInputs) (scrolls : Option Bool) :
    ReflTransGen Controller.Step s.world (s.update host inputs scrolls).1.world := by
  let c := { s.controller with inputs := inputs, mode := (Plan.ofInputs inputs).mode }
  have henqueue := enqueue_steps { s with controller := c } host (.plan inputs)
    (some (if scrolls.getD s.controller.autoScroll then (Plan.ofInputs inputs).scroll else none))
  exact .head (.plan s.controller s.calls inputs (Plan.ofInputs inputs).mode) henqueue

theorem edit_steps (s : Session) (host : Host) (changes : ChangeSet) (text : Option (List Char)) :
    ReflTransGen Controller.Step s.world (s.edit host changes text).world := by
  let inputs := { s.controller.inputs with text := text.getD s.controller.inputs.text }
  have henqueue := enqueue_steps { s with controller := { s.controller with inputs := inputs } }
    host (.edit changes) none
  exact .head (.plan s.controller s.calls inputs s.controller.mode) henqueue

theorem dispose_steps (s : Session) : ReflTransGen Controller.Step s.world s.dispose.world :=
  .single (.dispose s.controller s.calls)

theorem drain_steps (s : Session) (host : Host) (loop : Action Flush) :
    ReflTransGen Controller.Step s.world (s.drain host loop).1.world := by
  refine Scheduler.perform_world (P := fun w => ReflTransGen Controller.Step s.world w) ?_
    s.scheduler s.world .refl loop
  intro _ w hw
  exact hw.tail (.flush w.1 w.2 host)

theorem handle_steps (s : Session) (host : Host) (event : Event) :
    ReflTransGen Controller.Step s.world (s.handle host event).1.world := by
  cases event with
  | update inputs scrolls => exact update_steps s host inputs scrolls
  | select text selection => exact update_steps s host _ none
  | play text playback cursor isPlaying scrolls => exact update_steps s host _ scrolls
  | edit changes text => exact edit_steps s host changes text
  | dispose => exact dispose_steps s
  | runPending => exact drain_steps s host .runPending
  | runFrame => exact drain_steps s host .runFrame
  | runUntilIdle => exact drain_steps s host .runUntilIdle

theorem run_steps (s : Session) (events : List (Host × Event)) :
    ReflTransGen Controller.Step s.world (s.run events).world := by
  induction events generalizing s with
  | nil => exact .refl
  | cons event events ih => exact (handle_steps s event.1 event.2).trans (ih _)

theorem run_invariant {P : Controller × List HostCall → Prop}
    (hstep : ∀ w w', Controller.Step w w' → P w → P w') {s : Session} (h : P s.world)
    (events : List (Host × Event)) : P (s.run events).world := by
  have hsteps : ∀ w, ReflTransGen Controller.Step s.world w → P w := by
    intro w hw
    induction hw with
    | refl => exact h
    | tail _ step ih => exact hstep _ _ step ih
  exact hsteps _ (run_steps s events)

end Session

namespace Controller

/-- What the layers show once the buffer has been worked off. -/
def wanted (c : Controller) : Layers := c.buffer.foldl Layers.update c.layers

/-! ## The two ways of a flush -/

theorem flush_detached (c : Controller) {host : Host} (h : host.attachment.isAttached = false) :
    c.flush host = ({ c with flushJob := none, buffer := [], scroll := none }, []) := by
  unfold flush
  rw [h]
  rfl

theorem flush_attached (c : Controller) {host : Host} (h : host.attachment.isAttached = true) :
    c.flush host =
      let r := applyLayers host c.wanted false c.applied
        (c.wanted.emptyFirst (c.wanted.changed c.applied))
      ({ c with
          layers := c.wanted, applied := r.1, buffer := [], scroll := none, flushJob := none },
        r.2 ++ c.scroll.toList.flatMap host.scrollTo) := by
  unfold flush wanted
  rw [h]
  rfl

/-! ## Sound controllers -/

structure Sound (c : Controller) : Prop where
  layers : c.layers.Sound
  issued : ∀ t ∈ c.buffer, t.Issued

theorem initial_sound (autoScroll : Bool) : (initial autoScroll).Sound where
  layers := Layers.empty_sound
  issued _ ht := absurd ht List.not_mem_nil

theorem Sound.wanted {c : Controller} (h : c.Sound) : c.wanted.Sound :=
  h.layers.foldl_update h.issued

theorem Sound.issued_concat {c : Controller} (h : c.Sound) {t : Transaction} (ht : t.Issued) :
    ∀ u ∈ c.buffer ++ [t], u.Issued := by
  intro u hu
  rcases List.mem_append.mp hu with hu | hu
  · exact h.issued u hu
  · cases List.mem_singleton.mp hu
    exact ht

theorem Sound.flush {c : Controller} (h : c.Sound) (host : Host) : (c.flush host).1.Sound := by
  cases hattached : host.attachment.isAttached with
  | false =>
    rw [flush_detached c hattached]
    exact ⟨h.layers, fun _ ht => absurd ht List.not_mem_nil⟩
  | true =>
    rw [flush_attached c hattached]
    exact ⟨h.wanted, fun _ ht => absurd ht List.not_mem_nil⟩

theorem Step.sound {w w' : Controller × List HostCall} (step : Step w w') (h : w.1.Sound) :
    w'.1.Sound := by
  cases step with
  | plan c calls inputs mode => exact ⟨h.layers, h.issued⟩
  | buffer c calls issued scroll flushJob => exact ⟨h.layers, h.issued_concat issued⟩
  | dispose c calls => exact ⟨h.layers, fun _ ht => absurd ht List.not_mem_nil⟩
  | flush c calls host => exact h.flush host

end Controller

namespace Session

theorem run_sound {s : Session} (h : s.controller.Sound) (events : List (Host × Event)) :
    (s.run events).controller.Sound :=
  run_invariant (P := fun w => w.1.Sound) (fun _ _ step => step.sound) h events

/-- In every run, each layer has its own style only, stands in order and apart within the text, and
at most one layer shows something. -/
theorem run_layers_sound (autoScroll : Bool) (events : List (Host × Event)) :
    ((initial autoScroll).run events).controller.layers.Sound :=
  (run_sound (Controller.initial_sound autoScroll) events).layers

end Session

end Tablature
