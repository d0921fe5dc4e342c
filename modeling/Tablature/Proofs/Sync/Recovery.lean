import Tablature.Proofs.Sync.HostContent
import Tablature.Proofs.Sync.Responses

/-!
# Recovery

Whatever the host refused before, the next flush compares the wanted layers with
what the host has really accepted. So a flush in which nothing is refused leaves
the host with exactly the wanted layers.
-/

namespace Tablature

namespace Controller

variable {host : Host} {wanted : Layers}

/-- When nothing is refused, every style whose turn comes is brought up to date. -/
theorem applyLayers_accepted (styles : List Style) {applied : Layers}
    (h : ∀ style content, .apply style content false ∉ (applyLayers host wanted false applied styles).2)
    (style : Style) :
    (applyLayers host wanted false applied styles).1.get style =
      if style ∈ styles then wanted.get style else applied.get style := by
  induction styles generalizing applied with
  | nil => simp [applyLayers]
  | cons first styles ih =>
    rw [applyLayers_called host applied styles (.inl rfl)] at h ⊢
    dsimp only at h ⊢
    have haccepted : host.accepts first (wanted.get first) = true := by
      by_contra hrefused
      rw [Bool.not_eq_true] at hrefused
      apply h first (wanted.get first)
      rw [hrefused]
      exact List.mem_cons_self
    rw [haccepted] at h ⊢
    simp only [Bool.not_true, Bool.false_and, Bool.or_false, if_true] at h ⊢
    rw [ih fun style content hmem => h style content (List.mem_cons_of_mem _ hmem)]
    by_cases hstyle : style = first
    · subst hstyle
      simp
    · simp [hstyle, Layers.get_set_ne]

theorem flush_accepted (c : Controller) (hattached : host.attachment.isAttached = true)
    (h : ∀ style content, .apply style content false ∉ (c.flush host).2) (style : Style) :
    ((c.flush host).1.applied.get style).decorations =
      ((c.flush host).1.layers.get style).decorations := by
  rw [flush_attached c hattached] at h ⊢
  dsimp only at h ⊢
  rw [applyLayers_accepted _ fun style content hmem => h style content (List.mem_append_left _ hmem)]
  simp only [Layers.mem_emptyFirst]
  by_cases hchanged : style ∈ c.wanted.changed c.applied
  · rw [if_pos hchanged]
  · rw [if_neg hchanged]
    rw [Layers.mem_changed, not_not] at hchanged
    exact hchanged.symm

theorem flush_shown {c : Controller} {calls : List HostCall} (hsound : c.Sound)
    (hshows : Shows calls c.applied) (hattached : host.attachment.isAttached = true)
    (haccepted : ∀ style content, .apply style content false ∉ (c.flush host).2) (style : Style) :
    (shown (calls ++ (c.flush host).2) style).decorations =
      ((c.flush host).1.layers.get style).decorations := by
  rw [(flush_shows hsound hshows host).now]
  exact c.flush_accepted hattached haccepted style

end Controller

namespace Session

variable {s : Session}

theorem Reachable.sound (hs : s.Reachable) : s.controller.Sound := by
  obtain ⟨autoScroll, events, rfl⟩ := hs
  exact run_sound (Controller.initial_sound autoScroll) events

theorem Reachable.shows (hs : s.Reachable) : Shows s.calls s.controller.applied := by
  obtain ⟨autoScroll, events, rfl⟩ := hs
  exact run_shows (Controller.initial_sound autoScroll) Shows.nil events

/-- Whatever the host refused or missed before, it shows exactly the wanted layers after a flush
that finds it attached and in which it refuses nothing; and a turn with work pending is such a
flush. -/
theorem Reachable.flush_heals (hs : s.Reachable) {host : Host}
    (hattached : host.attachment.isAttached = true)
    (haccepted : ∀ style content, .apply style content false ∉ (s.controller.flush host).2) :
    (∀ style, (shown (s.flushed host).2 style).decorations =
        ((s.flushed host).1.layers.get style).decorations) ∧
      ∀ event : Event, event.isTurn = true → s.controller.hasPending = true →
        (s.handle host event).1.world = s.flushed host := by
  constructor
  · exact Controller.flush_shown hs.sound hs.shows hattached haccepted
  · intro event hturn hpending
    exact handle_flushed hs.armed host hturn hpending

/-- The host refused to clear the parked bar and shows it still; the next flush puts that right. -/
theorem flush_heals_staleBar :
    let host (accepts : DecorationSet → Bool) : Host :=
      ⟨.attached, none, none, fun _ => none, fun _ => accepts, true⟩
    let inputs (isPlaying : Bool) : SyncInputs :=
      ⟨['5', '.', '1', ' ', '5', '.', '2'], none, some ⟨0, 1⟩, some ⟨0, 0⟩, isPlaying⟩
    let s := (initial false).run [(host fun _ => true, .update (inputs false) none),
      (host fun _ => true, .runPending), (host fun _ => true, .update (inputs true) none),
      (host fun content => !content.isEmpty, .runPending),
      (host fun _ => true, .update (inputs true) none)]
    s.Reachable ∧ (shown s.calls .parkedBar).decorations = [⟨0, 7, .parkedBar⟩] ∧
      (s.controller.layers.get .parkedBar).decorations = [] ∧
      (s.controller.flush (host fun _ => true)).2 =
        [.apply .parkedBar .empty true, .apply .playback ⟨[⟨4, 7, .playback⟩], 7⟩ true] ∧
      (∀ style, (shown (s.flushed (host fun _ => true)).2 style).decorations =
        ((s.flushed (host fun _ => true)).1.layers.get style).decorations) ∧
      ∀ event : Event, event.isTurn = true → s.controller.hasPending = true →
        (s.handle (host fun _ => true) event).1.world = s.flushed (host fun _ => true) := by
  intro host inputs s
  have hs : s.Reachable := ⟨false, _, rfl⟩
  have hcalls : (s.controller.flush (host fun _ => true)).2 =
      [.apply .parkedBar .empty true, .apply .playback ⟨[⟨4, 7, .playback⟩], 7⟩ true] := by
    decide +kernel
  have haccepted : ∀ style content,
      .apply style content false ∉ (s.controller.flush (host fun _ => true)).2 := by
    rw [hcalls]
    simp
  have hstale : (shown s.calls .parkedBar).decorations = [⟨0, 7, .parkedBar⟩] := by
    decide +kernel
  have hwanted : (s.controller.layers.get .parkedBar).decorations = [] := by
    decide +kernel
  exact ⟨hs, hstale, hwanted, hcalls, hs.flush_heals rfl haccepted⟩

end Session

end Tablature
