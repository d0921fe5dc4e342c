import Tablature.Proofs.Sync.SoundLayers

/-!
# What the host shows

The host shows of each layer what it accepted last. A flush empties layers
before it fills one, and fills none once the host has refused to empty another,
so the host never shows two layers, whatever it refuses and whenever one looks.
-/

namespace Tablature

def HostCall.content? (style : Style) : HostCall → Option DecorationSet
  | .apply style' s true => if style' = style then some s else none
  | .apply _ _ false => none
  | .scroll _ _ => none

/-- What the host shows after some calls: the content of a layer that it accepted last. -/
def shown (calls : List HostCall) (style : Style) : DecorationSet :=
  ((calls.filterMap (HostCall.content? style)).getLast?).getD .empty

theorem HostCall.content?_accepted (style style' : Style) (s : DecorationSet) :
    (apply style s true).content? style' = if style = style' then some s else none := rfl

theorem shown_concat (calls : List HostCall) (call : HostCall) (style : Style) :
    shown (calls ++ [call]) style = (call.content? style).getD (shown calls style) := by
  unfold shown
  rw [List.filterMap_append]
  cases h : call.content? style with
  | none => rw [List.filterMap_cons_none h, List.filterMap_nil, List.append_nil, Option.getD_none]
  | some s =>
    rw [List.filterMap_cons_some h, List.filterMap_nil, List.getLast?_concat]
    rfl

theorem shown_concat_ignored {call : HostCall} (h : ∀ style, call.content? style = none)
    (calls : List HostCall) : shown (calls ++ [call]) = shown calls := by
  funext style
  rw [shown_concat, h, Option.getD_none]

theorem shown_concat_accepted {calls : List HostCall} {ls : Layers} (h : shown calls = ls.get)
    (style : Style) (s : DecorationSet) :
    shown (calls ++ [.apply style s true]) = (ls.set style s).get := by
  funext style'
  rw [shown_concat, h, HostCall.content?_accepted]
  by_cases hstyle : style = style'
  · subst hstyle
    rw [if_pos rfl, Layers.get_set_self, Option.getD_some]
  · rw [if_neg hstyle, Layers.get_set_ne ls s (Ne.symm hstyle), Option.getD_none]

/-! ## Logs in which no two layers are shown -/

/-- The host shows the given layers, and at no time has it shown two of them. -/
structure Shows (calls : List HostCall) (ls : Layers) : Prop where
  now : shown calls = ls.get
  always : ∀ before, before <+: calls → Exclusive (shown before)

namespace Shows

variable {calls : List HostCall} {ls : Layers}

theorem nil : Shows [] .empty where
  now := by
    funext style
    cases style <;> rfl
  always before h := by
    rw [List.prefix_nil.mp h]
    exact .of_others_empty .selection fun _ _ => rfl

theorem exclusive (h : Shows calls ls) : Exclusive ls.get := by
  rw [← h.now]
  exact h.always calls (List.prefix_refl calls)

theorem concat {ls' : Layers} {call : HostCall} (h : Shows calls ls)
    (hnow : shown (calls ++ [call]) = ls'.get) (hexclusive : Exclusive ls'.get) :
    Shows (calls ++ [call]) ls' where
  now := hnow
  always before hbefore := by
    rcases List.prefix_concat_iff.mp hbefore with rfl | hbefore
    · rwa [hnow]
    · exact h.always before hbefore

theorem ignore (h : Shows calls ls) {call : HostCall} (hcall : ∀ style, call.content? style = none) :
    Shows (calls ++ [call]) ls :=
  h.concat ((shown_concat_ignored hcall calls).trans h.now) h.exclusive

theorem ignore_all (h : Shows calls ls) {more : List HostCall}
    (hmore : ∀ call ∈ more, ∀ style, call.content? style = none) : Shows (calls ++ more) ls := by
  induction more generalizing calls with
  | nil => rwa [List.append_nil]
  | cons call more ih =>
    rw [List.append_cons]
    refine ih (h.ignore (hmore call List.mem_cons_self)) fun call' h' => ?_
    exact hmore call' (List.mem_cons_of_mem _ h')

theorem accept_empty (h : Shows calls ls) (style : Style) {s : DecorationSet}
    (hs : s.decorations = []) : Shows (calls ++ [.apply style s true]) (ls.set style s) := by
  refine h.concat (shown_concat_accepted h.now style s) (h.exclusive.mono fun t ht => ?_)
  by_cases hstyle : t = style
  · rw [hstyle, Layers.get_set_self, hs]
  · rwa [Layers.get_set_ne ls s hstyle]

theorem accept_only (h : Shows calls ls) (style : Style) (s : DecorationSet)
    (hothers : ∀ t, t ≠ style → (ls.get t).decorations = []) :
    Shows (calls ++ [.apply style s true]) (ls.set style s) := by
  refine h.concat (shown_concat_accepted h.now style s) ?_
  refine .of_others_empty style fun t ht => ?_
  rw [Layers.get_set_ne ls s ht]
  exact hothers t ht

end Shows

/-! ## The order of a flush -/

namespace Layers

theorem mem_changed {wanted applied : Layers} {style : Style} :
    style ∈ wanted.changed applied ↔
      (wanted.get style).decorations ≠ (applied.get style).decorations := by
  unfold changed
  rw [List.mem_filter, bne_iff_ne]
  exact and_iff_right (Style.mem_all style)

theorem mem_emptyFirst {ls : Layers} {styles : List Style} {style : Style} :
    style ∈ ls.emptyFirst styles ↔ style ∈ styles := by
  unfold emptyFirst
  rw [List.mem_append, List.mem_filter, List.mem_filter, Bool.not_eq_true', ← and_or_left]
  exact and_iff_left (Bool.eq_false_or_eq_true _)

def EmptyFirst (wanted : Layers) (styles : List Style) : Prop :=
  styles.Pairwise fun s t => (wanted.get s).decorations ≠ [] → (wanted.get t).decorations ≠ []

theorem emptyFirst_ordered (ls : Layers) (styles : List Style) :
    ls.EmptyFirst (ls.emptyFirst styles) := by
  have hempty : ∀ s ∈ styles.filter (fun s => (ls.get s).isEmpty), (ls.get s).decorations = [] :=
    fun s hs => List.isEmpty_iff.mp (List.mem_filter.mp hs).2
  have hfilled : ∀ s ∈ styles.filter (fun s => !(ls.get s).isEmpty), (ls.get s).decorations ≠ [] := by
    intro s hs he
    have := (List.mem_filter.mp hs).2
    rw [DecorationSet.isEmpty, he] at this
    cases this
  refine List.pairwise_append.mpr ⟨?_, ?_, ?_⟩
  · exact List.pairwise_of_forall_mem_list fun s hs _ _ h => absurd (hempty s hs) h
  · exact List.pairwise_of_forall_mem_list fun _ _ t ht _ => hfilled t ht
  · exact fun s hs _ _ h => absurd (hempty s hs) h

end Layers

namespace Controller

variable {host : Host} {wanted applied : Layers} {held : Bool} {style : Style} {styles : List Style}

/-- Unless a refusal holds fillings back, a layer that is to be empty and is not in turn any more is
empty already. -/
def Ready (wanted applied : Layers) (held : Bool) (styles : List Style) : Prop :=
  held = false → ∀ s, s ∉ styles →
    (wanted.get s).decorations = [] → (applied.get s).decorations = []

theorem ready_of_changed (wanted applied : Layers) :
    Ready wanted applied false (wanted.emptyFirst (wanted.changed applied)) := by
  intro _ s hs hempty
  rw [Layers.mem_emptyFirst, Layers.mem_changed, not_not] at hs
  rw [← hs, hempty]

theorem ready_of_held (hheld : held = true) : Ready wanted applied held styles :=
  fun h => absurd (hheld.symm.trans h) Bool.noConfusion

theorem Ready.accept (h : Ready wanted applied held (style :: styles)) :
    Ready wanted (applied.set style (wanted.get style)) held styles := by
  intro hheld s hs hempty
  by_cases hstyle : s = style
  · rwa [hstyle, Layers.get_set_self, ← hstyle]
  · rw [Layers.get_set_ne applied _ hstyle]
    exact h hheld s (List.not_mem_cons_of_ne_of_not_mem hstyle hs) hempty

theorem Ready.refuse (h : Ready wanted applied held (style :: styles)) :
    Ready wanted applied (held || (wanted.get style).isEmpty) styles := by
  intro hheld s hs hempty
  obtain ⟨hheld, hfilled⟩ := Bool.or_eq_false_iff.mp hheld
  have hstyle : s ≠ style := by
    rintro rfl
    rw [DecorationSet.isEmpty, hempty] at hfilled
    cases hfilled
  exact h hheld s (List.not_mem_cons_of_ne_of_not_mem hstyle hs) hempty

/-- When it is the turn of a layer that is to be filled, all others are empty. -/
theorem Ready.others_empty (h : Ready wanted applied held (style :: styles))
    (hordered : wanted.EmptyFirst (style :: styles)) (hwanted : Exclusive wanted.get)
    (hheld : held = false) (hfilled : (wanted.get style).decorations ≠ []) :
    ∀ t, t ≠ style → (applied.get t).decorations = [] := by
  intro t ht
  have hempty : (wanted.get t).decorations = [] :=
    Decidable.byContradiction fun hne => ht (hwanted t style hne hfilled)
  refine h hheld t (List.not_mem_cons_of_ne_of_not_mem ht fun hmem => ?_) hempty
  exact List.rel_of_pairwise_cons hordered hmem hfilled hempty

/-! ## The calls of a flush -/

theorem applyLayers_skipped (host : Host) (applied : Layers) (styles : List Style)
    (hheld : held = true) (hfilled : (wanted.get style).decorations ≠ []) :
    applyLayers host wanted held applied (style :: styles) =
      applyLayers host wanted held applied styles := by
  have : (held && !(wanted.get style).isEmpty) = true := by
    rw [hheld, Bool.true_and, Bool.not_eq_true', ← Bool.not_eq_true]
    exact fun h => hfilled (List.isEmpty_iff.mp h)
  rw [applyLayers, if_pos this]

theorem applyLayers_called (host : Host) (applied : Layers) (styles : List Style)
    (h : held = false ∨ (wanted.get style).decorations = []) :
    applyLayers host wanted held applied (style :: styles) =
      let accepted := host.accepts style (wanted.get style)
      let r := applyLayers host wanted (held || (!accepted && (wanted.get style).isEmpty))
        (if accepted then applied.set style (wanted.get style) else applied) styles
      (r.1, .apply style (wanted.get style) accepted :: r.2) := by
  have : (held && !(wanted.get style).isEmpty) = false := by
    rcases h with h | h
    · rw [h, Bool.false_and]
    · rw [DecorationSet.isEmpty, h, List.isEmpty_nil, Bool.not_true, Bool.and_false]
  rw [applyLayers, if_neg (Bool.eq_false_iff.mp this)]

theorem applyLayers_shows (hwanted : Exclusive wanted.get) (styles : List Style) {held : Bool}
    {applied : Layers} {calls : List HostCall} (hordered : wanted.EmptyFirst styles)
    (hready : Ready wanted applied held styles) (hshows : Shows calls applied) :
    Shows (calls ++ (applyLayers host wanted held applied styles).2)
      (applyLayers host wanted held applied styles).1 := by
  induction styles generalizing held applied calls with
  | nil => rwa [applyLayers, List.append_nil]
  | cons style styles ih =>
    have hordered' : wanted.EmptyFirst styles := hordered.of_cons
    by_cases hcalled : held = false ∨ (wanted.get style).decorations = []
    · rw [applyLayers_called host applied styles hcalled]
      dsimp only
      rw [List.append_cons]
      cases haccepted : host.accepts style (wanted.get style) with
      | true =>
        rw [Bool.not_true, Bool.false_and, Bool.or_false, if_pos rfl]
        refine ih hordered' hready.accept ?_
        -- an empty layer may always come in, a filled one only when it finds the others empty
        by_cases hempty : (wanted.get style).decorations = []
        · exact hshows.accept_empty style hempty
        · have hheld := hcalled.resolve_right hempty
          exact hshows.accept_only style _ (hready.others_empty hordered hwanted hheld hempty)
      | false =>
        rw [Bool.not_false, Bool.true_and, if_neg Bool.false_ne_true]
        exact ih hordered' hready.refuse (hshows.ignore fun _ => rfl)
    · obtain ⟨hheld, hfilled⟩ := not_or.mp hcalled
      have hheld : held = true := Bool.of_not_eq_false hheld
      rw [applyLayers_skipped host applied styles hheld hfilled]
      exact ih hordered' (ready_of_held hheld) hshows

theorem scrollTo_content? {host : Host} {target : ScrollTarget} {call : HostCall}
    (h : call ∈ host.scrollTo target) (style : Style) : call.content? style = none := by
  unfold Host.scrollTo at h
  obtain ⟨request, -, rfl⟩ := Option.map_eq_some_iff.mp (Option.mem_toList.mp h)
  rfl

theorem flush_shows {c : Controller} {calls : List HostCall} (hsound : c.Sound)
    (hshows : Shows calls c.applied) (host : Host) :
    Shows (calls ++ (c.flush host).2) (c.flush host).1.applied := by
  cases hattached : host.attachment.isAttached with
  | false =>
    rw [flush_detached c hattached, List.append_nil]
    exact hshows
  | true =>
    rw [flush_attached c hattached]
    dsimp only
    rw [← List.append_assoc]
    refine Shows.ignore_all ?_ fun call hcall => ?_
    · exact applyLayers_shows hsound.wanted.exclusive _ (Layers.emptyFirst_ordered _ _)
        (ready_of_changed _ _) hshows
    · obtain ⟨target, -, hcall⟩ := List.mem_flatMap.mp hcall
      exact scrollTo_content? hcall

theorem Step.shows {w w' : Controller × List HostCall} (step : Step w w') (hsound : w.1.Sound)
    (hshows : Shows w.2 w.1.applied) : Shows w'.2 w'.1.applied := by
  cases step with
  | plan c calls inputs mode => exact hshows
  | buffer c calls issued scroll flushJob => exact hshows
  | dispose c calls => exact hshows
  | flush c calls host => exact flush_shows hsound hshows host

end Controller

namespace Session

theorem run_shows {s : Session} (hsound : s.controller.Sound)
    (hshows : Shows s.calls s.controller.applied) (events : List (Host × Event)) :
    Shows (s.run events).calls (s.run events).controller.applied := by
  have hrun := run_invariant (P := fun w => w.1.Sound ∧ Shows w.2 w.1.applied)
    (fun _ _ step h => ⟨step.sound h.1, step.shows h.1 h.2⟩) ⟨hsound, hshows⟩ events
  exact hrun.2

/-- At every moment of a run, between any two calls to the host, the host shows one layer at most. -/
theorem run_shown_exclusive (autoScroll : Bool) (events : List (Host × Event)) (n : Nat) :
    Exclusive (shown (((initial autoScroll).run events).calls.take n)) :=
  (run_shows (Controller.initial_sound autoScroll) Shows.nil events).always _ (List.take_prefix n _)

-- The host refuses to empty the playback layer, so the selection is held back.
example :
    let host (accepts : Style → DecorationSet → Bool) : Host :=
      ⟨.attached, none, none, fun _ => none, accepts, true⟩
    let inputs (isPlaying : Bool) : SyncInputs :=
      ⟨['5', '.', '1', ' ', '5', '.', '2'], some ⟨⟨0, 1⟩, ⟨0, 1⟩⟩, some ⟨0, 0⟩, none, isPlaying⟩
    let events : List (Host × Event) :=
      [(host fun _ _ => true, .update (inputs true) none), (host fun _ _ => true, .runPending),
        (host fun _ s => !s.isEmpty, .update (inputs false) none),
        (host fun _ s => !s.isEmpty, .runPending)]
    let calls := ((initial false).run events).calls
    Style.all.map (fun style => (shown calls style).decorations) =
      [[], [⟨0, 3, .playback⟩], []] := by decide +kernel

end Session

end Tablature
