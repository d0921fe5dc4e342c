import Tablature.Sync.Host
import Tablature.Sync.Plan

/-!
# The controller

The controller owns the three layers of one editor. It plans highlights when the
score or the player changes, and buffers what has to be done. A flush works the
buffer off and tells the host about the layers that look different from what the
host last accepted. Empty layers go first, and when one of them is refused, no
other layer is filled in the same flush.
-/

namespace Tablature

structure Layers where
  selection : DecorationSet
  playback : DecorationSet
  parkedBar : DecorationSet
deriving Repr, DecidableEq

namespace Layers

def empty : Layers := ⟨.empty, .empty, .empty⟩

def get (ls : Layers) : Style → DecorationSet
  | .selection => ls.selection
  | .playback => ls.playback
  | .parkedBar => ls.parkedBar

def set (ls : Layers) (style : Style) (s : DecorationSet) : Layers :=
  match style with
  | .selection => { ls with selection := s }
  | .playback => { ls with playback := s }
  | .parkedBar => { ls with parkedBar := s }

def update (ls : Layers) (t : Transaction) : Layers :=
  ⟨updateLayer .selection ls.selection t, updateLayer .playback ls.playback t,
    updateLayer .parkedBar ls.parkedBar t⟩

def changed (wanted applied : Layers) : List Style :=
  Style.all.filter fun s => (wanted.get s).decorations != (applied.get s).decorations

def emptyFirst (ls : Layers) (styles : List Style) : List Style :=
  styles.filter (fun s => (ls.get s).isEmpty) ++ styles.filter fun s => !(ls.get s).isEmpty

@[simp] theorem get_set_self (ls : Layers) (style : Style) (s : DecorationSet) :
    (ls.set style s).get style = s := by cases style <;> rfl

theorem get_set_ne (ls : Layers) {style style' : Style} (s : DecorationSet) (h : style' ≠ style) :
    (ls.set style s).get style' = ls.get style' := by
  cases style <;> cases style' <;> simp_all [get, set]

theorem get_update (ls : Layers) (t : Transaction) (style : Style) :
    (ls.update t).get style = updateLayer style (ls.get style) t := by cases style <;> rfl

end Layers

structure Controller where
  /-- Whether an update scrolls when it does not say so itself. -/
  autoScroll : Bool
  /-- What the layers should show. -/
  layers : Layers
  /-- What the host last accepted. -/
  applied : Layers
  inputs : SyncInputs
  mode : Mode
  /-- The transactions that wait for the next flush. -/
  buffer : List Transaction
  scroll : Option ScrollTarget
  flushJob : Option Nat

namespace Controller

def initial (autoScroll : Bool) : Controller :=
  ⟨autoScroll, .empty, .empty, .initial, .idle, [], none, none⟩

def hasPending (c : Controller) : Bool := !c.buffer.isEmpty

/-- Tells the host about some layers in turn. `held` says that an empty layer was refused, so that
no other layer may be filled. The first part is what the host has accepted by then. -/
def applyLayers (host : Host) (wanted : Layers) :
    (held : Bool) → (applied : Layers) → List Style → Layers × List HostCall
  | _, applied, [] => (applied, [])
  | held, applied, style :: styles =>
    let s := wanted.get style
    if held && !s.isEmpty then applyLayers host wanted held applied styles
    else
      let accepted := host.accepts style s
      let r := applyLayers host wanted (held || (!accepted && s.isEmpty))
        (if accepted then applied.set style s else applied) styles
      (r.1, .apply style s accepted :: r.2)

/-- Works the buffer off; the second part is what the host was told. Without a host the buffer is
dropped. -/
def flush (c : Controller) (host : Host) : Controller × List HostCall :=
  let taken := { c with flushJob := none, buffer := [], scroll := none }
  if !host.attachment.isAttached then (taken, [])
  else
    let layers := c.buffer.foldl Layers.update c.layers
    let r := applyLayers host layers false c.applied (layers.emptyFirst (layers.changed c.applied))
    ({ taken with layers := layers, applied := r.1 },
      r.2 ++ (c.scroll.toList.flatMap host.scrollTo))

end Controller

end Tablature
