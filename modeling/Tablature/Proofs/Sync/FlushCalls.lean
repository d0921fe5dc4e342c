import Mathlib.Data.List.Nodup
import Tablature.Proofs.Sync.Contacts
import Tablature.Proofs.Sync.Recovery

/-!
# The calls of a flush

A flush calls for the layers that the host shows differently from what is
wanted, and for each of them once: first those to be emptied, then those to be
filled, unless the host has refused to empty one. A scroll comes at the very end.
-/

namespace Tablature

namespace HostCall

def style? : HostCall → Option Style
  | .apply style _ _ => some style
  | .scroll _ _ => none

def empties : HostCall → Bool
  | .apply _ content _ => content.isEmpty
  | .scroll _ _ => false

def fills : HostCall → Bool
  | .apply _ content _ => !content.isEmpty
  | .scroll _ _ => false

def accepted : HostCall → Bool
  | .apply _ _ accepted => accepted
  | .scroll _ accepted => accepted

end HostCall

/-- The calls of a flush keep to their order, given what is wanted and what the host shows. -/
structure FlushOrder (wanted : Layers) (shown : Style → DecorationSet) (calls : List HostCall) :
    Prop where
  once : (calls.filterMap HostCall.style?).Nodup
  needed : ∀ style content accepted, .apply style content accepted ∈ calls →
    content = wanted.get style ∧ content.decorations ≠ (shown style).decorations
  emptyFirst : calls.Pairwise fun earlier later => later.empties = true → earlier.fills = false
  heldBack : calls.Pairwise fun earlier later =>
    earlier.empties = true → earlier.accepted = false → later.fills = false
  /-- Nothing comes behind a scroll. -/
  scrollLast : calls.Pairwise fun earlier _ => earlier.style? ≠ none

namespace Layers

/-- The styles that a flush calls for: those to be emptied, and those to be filled unless the host
refuses to empty one. -/
def called (host : Host) (wanted : Layers) (styles : List Style) : List Style :=
  let empty := styles.filter fun s => (wanted.get s).isEmpty
  let filled := styles.filter fun s => !(wanted.get s).isEmpty
  empty ++ if empty.all fun s => host.accepts s (wanted.get s) then filled else []

def call (host : Host) (wanted : Layers) (style : Style) : HostCall :=
  .apply style (wanted.get style) (host.accepts style (wanted.get style))

variable (host : Host) (wanted : Layers) (styles : List Style)

theorem called_sublist : (wanted.called host styles).Sublist (wanted.emptyFirst styles) := by
  unfold called emptyFirst
  refine (List.Sublist.refl _).append ?_
  split
  · exact List.Sublist.refl _
  · exact List.nil_sublist _

theorem changed_nodup (applied : Layers) : (wanted.changed applied).Nodup :=
  List.Nodup.filter _ (by decide)

theorem called_heldBack : (wanted.called host styles).Pairwise fun s t =>
    (wanted.get s).isEmpty = true → host.accepts s (wanted.get s) = false →
      (wanted.get t).isEmpty = true := by
  unfold called
  refine List.pairwise_append.mpr ⟨?_, ?_, ?_⟩
  · -- what stands behind another style among those to be emptied is one of them
    exact List.pairwise_of_forall_mem_list fun _ _ t ht _ _ => (List.mem_filter.mp ht).2
  · refine List.pairwise_of_forall_mem_list fun s hs _ _ hempty => ?_
    split at hs
    · have hfilled := (List.mem_filter.mp hs).2
      rw [hempty] at hfilled
      cases hfilled
    · cases hs
  · intro s hs t ht _ hrefused
    split at ht
    · rename_i hall
      have haccepted := List.all_eq_true.mp hall s hs
      rw [hrefused] at haccepted
      cases haccepted
    · cases ht

theorem called_order (applied : Layers) :
    FlushOrder wanted applied.get
      ((wanted.called host (wanted.changed applied)).map (wanted.call host)) := by
  have hsub := wanted.called_sublist host (wanted.changed applied)
  have hheld := wanted.called_heldBack host (wanted.changed applied)
  generalize wanted.called host (wanted.changed applied) = asked at hsub hheld ⊢
  constructor
  · have hstyles : (asked.map (wanted.call host)).filterMap HostCall.style? = asked := by
      rw [List.filterMap_map]
      exact List.filterMap_some
    rw [hstyles]
    refine hsub.nodup (List.Perm.nodup ?_ (wanted.changed_nodup applied))
    exact (List.filter_append_perm _ _).symm
  · intro style content accepted hmem
    obtain ⟨style', hasked, heq⟩ := List.mem_map.mp hmem
    cases heq
    exact ⟨rfl, mem_changed.mp (mem_emptyFirst.mp (hsub.subset hasked))⟩
  · refine List.pairwise_map.mpr (((wanted.emptyFirst_ordered _).sublist hsub).imp ?_)
    intro s t hordered hempty
    have hempty : (wanted.get t).decorations = [] := List.isEmpty_iff.mp hempty
    have hnil : (wanted.get s).decorations = [] := by
      by_contra hfilled
      exact hordered hfilled hempty
    simp [HostCall.fills, call, DecorationSet.isEmpty, hnil]
  · refine List.pairwise_map.mpr (hheld.imp ?_)
    intro s t hheld hempty hrefused
    simpa [HostCall.fills, call] using hheld hempty hrefused
  · refine List.pairwise_map.mpr (List.pairwise_of_forall fun s _ => ?_)
    exact Option.some_ne_none s

end Layers

/-- A scroll may follow calls that are all about layers. -/
theorem FlushOrder.scroll {wanted : Layers} {shown : Style → DecorationSet} {calls : List HostCall}
    (h : FlushOrder wanted shown calls) (hlayers : ∀ call ∈ calls, call.style? ≠ none)
    (request : ScrollRequest) (accepted : Bool) :
    FlushOrder wanted shown (calls ++ [.scroll request accepted]) where
  once := by
    rw [List.filterMap_append, show [HostCall.scroll request accepted].filterMap HostCall.style? = []
      from rfl, List.append_nil]
    exact h.once
  needed style content accepted' hmem := by
    rcases List.mem_append.mp hmem with hmem | hmem
    · exact h.needed style content accepted' hmem
    · simp at hmem
  emptyFirst := List.pairwise_append.mpr
    ⟨h.emptyFirst, List.pairwise_singleton _ _, fun _ _ call hcall hempty => by
      cases List.mem_singleton.mp hcall
      cases hempty⟩
  heldBack := List.pairwise_append.mpr
    ⟨h.heldBack, List.pairwise_singleton _ _, fun _ _ call hcall _ _ => by
      cases List.mem_singleton.mp hcall
      rfl⟩
  scrollLast := List.pairwise_append.mpr
    ⟨h.scrollLast, List.pairwise_singleton _ _, fun call hcall _ _ => hlayers call hcall⟩

namespace Controller

variable {host : Host} {wanted : Layers}

theorem applyLayers_filled {styles : List Style} (h : ∀ s ∈ styles, (wanted.get s).isEmpty = false)
    (held : Bool) (applied : Layers) :
    (applyLayers host wanted held applied styles).2 =
      if held then [] else styles.map (wanted.call host) := by
  induction styles generalizing held applied with
  | nil => simp [applyLayers]
  | cons style styles ih =>
    obtain ⟨hstyle, hstyles⟩ := List.forall_mem_cons.mp h
    rw [applyLayers]
    cases held with
    | true => simp [hstyle, ih hstyles]
    | false => simp [hstyle, ih hstyles, Layers.call]

theorem applyLayers_emptied {empty filled : List Style}
    (hempty : ∀ s ∈ empty, (wanted.get s).isEmpty = true)
    (hfilled : ∀ s ∈ filled, (wanted.get s).isEmpty = false) (held : Bool) (applied : Layers) :
    (applyLayers host wanted held applied (empty ++ filled)).2 = empty.map (wanted.call host) ++
      if held || !empty.all fun s => host.accepts s (wanted.get s) then []
      else filled.map (wanted.call host) := by
  induction empty generalizing held applied with
  | nil => simp [applyLayers_filled hfilled]
  | cons style empty ih =>
    obtain ⟨hstyle, hempty⟩ := List.forall_mem_cons.mp hempty
    rw [List.cons_append, applyLayers]
    cases haccepted : host.accepts style (wanted.get style) with
    | true => simp [hstyle, haccepted, ih hempty, Layers.call]
    | false => simp [hstyle, haccepted, ih hempty, Layers.call]

theorem applyLayers_calls (applied : Layers) (styles : List Style) :
    (applyLayers host wanted false applied (wanted.emptyFirst styles)).2 =
      (wanted.called host styles).map (wanted.call host) := by
  unfold Layers.emptyFirst Layers.called
  dsimp only
  rw [applyLayers_emptied, List.map_append]
  · congr 1
    generalize List.all _ _ = allAccepted
    cases allAccepted with
    | true => rfl
    | false => rfl
  · exact fun s hs => (List.mem_filter.mp hs).2
  · exact fun s hs => Bool.not_eq_true' _ ▸ (List.mem_filter.mp hs).2

theorem scrolls_cases (host : Host) (scroll : Option ScrollTarget) :
    scroll.toList.flatMap host.scrollTo = [] ∨
      ∃ request accepted, scroll.toList.flatMap host.scrollTo = [.scroll request accepted] := by
  cases scroll with
  | none => exact .inl rfl
  | some target =>
    cases hrequest : host.scrollRequest? target with
    | none => exact .inl (by simp [Host.scrollTo, hrequest])
    | some request => exact .inr ⟨request, host.acceptsScroll, by simp [Host.scrollTo, hrequest]⟩

theorem flush_order (c : Controller) (host : Host) :
    FlushOrder c.wanted c.applied.get (c.flush host).2 := by
  cases hattached : host.attachment.isAttached with
  | false =>
    rw [flush_detached c hattached]
    exact ⟨.nil, (fun _ _ _ h => nomatch h), .nil, .nil, .nil⟩
  | true =>
    rw [flush_attached c hattached]
    dsimp only
    rw [applyLayers_calls]
    have horder := c.wanted.called_order host c.applied
    rcases scrolls_cases host c.scroll with hscroll | ⟨request, accepted, hscroll⟩
    · rwa [hscroll, List.append_nil]
    · rw [hscroll]
      refine horder.scroll (fun call hcall => ?_) request accepted
      obtain ⟨style, -, rfl⟩ := List.mem_map.mp hcall
      exact Option.some_ne_none style

end Controller

namespace Session

open Calling

/-- Whatever fails, a flush asks a host that is gone nothing more, and its calls to a host that is
there keep to their order. A turn with work pending is such a flush. -/
theorem Reachable.flush_ordered {s : Session} (hs : s.Reachable) (host : Host) :
    (∃ contacts, exec (Controller.instructFlush host s.controller) [] =
        (.ok (s.flushed host).1, contacts) ∧
      (s.flushed host).2 = s.calls ++ contacts.filterMap Contact.change? ∧
      (host.attachment.isAttached = false → contacts = [.attachment]) ∧
      FlushOrder s.controller.wanted (shown s.calls) (contacts.filterMap Contact.change?)) ∧
    ∀ event : Event, event.isTurn = true → s.controller.hasPending = true →
      (s.handle host event).1.world = s.flushed host := by
  constructor
  · obtain ⟨contacts, hexec, hcalls, hdetached⟩ := Controller.exec_instructFlush host s.controller
    refine ⟨contacts, hexec, ?_, hdetached, ?_⟩
    · rw [hcalls]
      rfl
    · rw [hcalls, hs.shows.now]
      exact s.controller.flush_order host
  · intro event hturn hpending
    exact handle_flushed hs.armed host hturn hpending

/-- The host refuses to clear the parked bar, so the note that is played is held back. -/
theorem flush_ordered_heldBack :
    let host (accepts : DecorationSet → Bool) : Host :=
      ⟨.attached, none, none, fun _ => none, fun _ => accepts, true⟩
    let inputs (isPlaying : Bool) : SyncInputs :=
      ⟨['5', '.', '1', ' ', '5', '.', '2'], none, some ⟨0, 1⟩, some ⟨0, 0⟩, isPlaying⟩
    let s := (initial false).run [(host fun _ => true, .update (inputs false) none),
      (host fun _ => true, .runPending), (host fun _ => true, .update (inputs true) none)]
    let refusing := host fun content => !content.isEmpty
    s.Reachable ∧ s.controller.hasPending = true ∧
      (s.controller.wanted.get .playback).decorations = [⟨4, 7, .playback⟩] ∧
      (shown s.calls .parkedBar).decorations = [⟨0, 7, .parkedBar⟩] ∧
      (s.flushed refusing).2 = s.calls ++ [.apply .parkedBar .empty false] ∧
      FlushOrder s.controller.wanted (shown s.calls) [.apply .parkedBar .empty false] := by
  intro host inputs s refusing
  have hs : s.Reachable := ⟨false, _, rfl⟩
  have hpending : s.controller.hasPending = true := by
    decide +kernel
  have hwanted : (s.controller.wanted.get .playback).decorations = [⟨4, 7, .playback⟩] := by
    decide +kernel
  have hshown : (shown s.calls .parkedBar).decorations = [⟨0, 7, .parkedBar⟩] := by
    decide +kernel
  have hcalls : (s.flushed refusing).2 = s.calls ++ [.apply .parkedBar .empty false] := by
    decide +kernel
  obtain ⟨contacts, -, happended, -, horder⟩ := (hs.flush_ordered refusing).1
  rw [List.append_cancel_left (hcalls.symm.trans happended)]
  exact ⟨hs, hpending, hwanted, hshown, happended, horder⟩

end Session

end Tablature
