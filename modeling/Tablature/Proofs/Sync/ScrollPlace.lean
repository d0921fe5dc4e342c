import Tablature.Proofs.Sync.Responses

/-!
# Where a flush scrolls to

A plan that scrolls asks for the first decoration of the layer that it fills.
Edits that are buffered after the plan carry the layer along, but not the place
to scroll to. So a flush scrolls to where the plan put the highlight, which is
where the highlight stands if no edit follows the plan.
-/

namespace Tablature

/-- A position that edits take along one after the other, each to the place after its insertions. -/
def carry (edits : List ChangeSet) (pos : Int) : Int :=
  edits.foldl (fun p changes => changes.mapPos p .after) pos

/-! ## The first decoration of a layer -/

def DecorationSet.first? (s : DecorationSet) : Option Int := s.decorations.head?.map Decoration.start

theorem DecorationSet.first?_build {first : Span} {rest : List Span} {style : Style}
    {docLength : Int} (hapart : (first :: rest).Pairwise fun s t => s.stop ≤ t.start)
    (hin : first.InText docLength) : (build (first :: rest) style docLength).first? = some first.start := by
  obtain ⟨h₁, h₂, h₃⟩ := hin
  have hstart : clamp docLength first.start = first.start := by
    unfold clamp
    omega
  have hstop : clamp docLength first.stop = first.stop := by
    unfold clamp
    omega
  have hd : decorate? style docLength first = some ⟨first.start, first.stop, style⟩ := by
    rw [decorate?_eq_some_iff, hstart, hstop]
    exact ⟨rfl, h₂⟩
  unfold first?
  rw [(build_eq_filterMap style docLength hapart).1, List.filterMap_cons_some hd]
  rfl

theorem DecorationSet.first?_map {s s' : DecorationSet} {changes : ChangeSet}
    (h : s.map changes = .ok s') :
    s'.first? = s.first?.map fun p => changes.mapPos p .after := by
  obtain ⟨rfl, -, -⟩ := map_eq_ok_iff.mp h
  unfold first?
  rw [List.head?_map, Option.map_map, Option.map_map]
  rfl

theorem ChangeSet.mapPos_of_isEmpty {changes : ChangeSet} (h : changes.isEmpty = true) (pos : Int)
    (side : Side) : changes.mapPos pos side = pos := by
  unfold mapPos
  rw [List.isEmpty_iff.mp h, mapThrough, Int.add_zero]

namespace Layers

theorem first?_update_edit {ls : Layers} {changes : ChangeSet} {style : Style} {p : Int}
    (h : ((ls.update (.edit changes)).get style).first? = some p) :
    ∃ q, (ls.get style).first? = some q ∧ p = changes.mapPos q .after := by
  rw [get_update] at h
  simp only [updateLayer, Transaction.edit, List.filter_nil, List.getLast?_nil] at h
  by_cases hempty : changes.isEmpty = true
  · rw [if_pos hempty] at h
    exact ⟨p, h, (changes.mapPos_of_isEmpty hempty p .after).symm⟩
  · rw [if_neg hempty] at h
    cases hmap : (ls.get style).map changes with
    | error e =>
      rw [hmap] at h
      cases h
    | ok mapped =>
      rw [hmap] at h
      dsimp only at h
      rw [DecorationSet.first?_map hmap] at h
      obtain ⟨q, hq, hp⟩ := Option.map_eq_some_iff.mp h
      exact ⟨q, hq, hp.symm⟩

theorem first?_foldl_edits {ls : Layers} (edits : List ChangeSet) {style : Style} {p : Int}
    (h : (((edits.map Transaction.edit).foldl Layers.update ls).get style).first? = some p) :
    ∃ q, (ls.get style).first? = some q ∧ p = carry edits q := by
  induction edits generalizing ls with
  | nil => exact ⟨p, h, rfl⟩
  | cons changes edits ih =>
    obtain ⟨q, hq, hp⟩ := ih h
    obtain ⟨r, hr, hqr⟩ := first?_update_edit hq
    refine ⟨r, hr, ?_⟩
    rw [hp, hqr]
    rfl

/-- A plan that scrolls shows one layer only, which begins where the plan scrolls to. -/
theorem first?_update_plan {inputs : SyncInputs} {target : ScrollTarget}
    (h : (Plan.ofInputs inputs).scroll = some target) :
    0 ≤ target.position ∧ ∃ style, ∀ (ls : Layers) (s : Style),
      ((ls.update (.plan inputs)).get s).first? = if s = style then some target.position else none := by
  rcases Plan.ofInputs_cases inputs with hplan | ⟨style, first, rest, hstyle, hspans, hplan⟩
  · rw [hplan] at h
    cases h
  · have hposition : target.position = first.start := by
      rw [hplan] at h
      obtain ⟨kind, -, rfl⟩ := Option.map_eq_some_iff.mp h
      rfl
    have hin : first.InText inputs.text.length := by
      apply Mode.spans_inText (Mode.ofInputs inputs) inputs.text
      rw [hspans]
      exact List.mem_cons_self
    have hapart := Mode.spans_apart (Mode.ofInputs inputs) inputs.text inputs.text.length
    rw [hspans] at hapart
    refine ⟨hposition ▸ hin.1, style, fun ls s => ?_⟩
    by_cases hs : s = style
    · have hlayer : (ls.update (.plan inputs)).get s =
          .build (first :: rest) style inputs.text.length := by
        rw [get_update, updateLayer, Transaction.plan, hplan, hs]
        cases style <;> rfl
      rw [if_pos hs, hlayer, hposition]
      exact DecorationSet.first?_build hapart hin
    · have hempty : ((ls.update (.plan inputs)).get s).decorations = [] :=
        update_plan_others ls (by rw [hstyle]; simpa using Ne.symm hs)
      rw [if_neg hs, DecorationSet.first?, hempty]
      rfl

end Layers

/-! ## The scroll that a flush asks for -/

theorem Host.scrollRequest?_position {host : Host} {target : ScrollTarget} {request : ScrollRequest}
    (h : host.scrollRequest? target = some request) (hnonneg : 0 ≤ target.position) :
    ∃ length, host.documentLength = some length ∧ request.position = min target.position length := by
  obtain ⟨length, hlength, h⟩ := Option.bind_eq_some_iff.mp h
  obtain ⟨viewport, -, h⟩ := Option.bind_eq_some_iff.mp h
  obtain ⟨coord, -, h⟩ := Option.bind_eq_some_iff.mp h
  refine ⟨length, hlength, ?_⟩
  dsimp only at h
  split at h
  · obtain ⟨margin, -, h⟩ := Option.bind_eq_some_iff.mp h
    cases h
    dsimp only
    rw [Int.max_eq_left hnonneg]
  · cases h

theorem Host.scrollRequest?_notRendered {host : Host} {viewport : Viewport}
    {position length place : Int} (hlength : host.documentLength = some length)
    (hplace : min (max position 0) length = place) (hviewport : host.viewport = some viewport)
    (hcoord : host.coordsAt place = some none) :
    host.scrollRequest? ⟨position, .playback⟩ =
      some ⟨place, ScrollPolicy.playback.fixedMargin⟩ := by
  have hfixed : (ScrollPolicy.playback.marginFraction != 0.0) = false := by decide +kernel
  have hmargin : ScrollPolicy.playback.margin viewport = .ok ScrollPolicy.playback.fixedMargin := by
    unfold ScrollPolicy.margin
    rw [hfixed]
    rfl
  unfold scrollRequest?
  simp only [hlength, hplace, hviewport, hcoord, ScrollKind.policy, hmargin, Option.bind_eq_bind,
    Option.bind_some, ScrollPolicy.needsScroll, if_true, Except.toOption]

namespace Controller

variable {host : Host} {c c' : Controller} {event : Event} {calls : List HostCall}

theorem scroll_not_mem_applyLayers (wanted : Layers) (styles : List Style) {held : Bool}
    {applied : Layers} {request : ScrollRequest} {accepted : Bool} :
    .scroll request accepted ∉ (applyLayers host wanted held applied styles).2 := by
  induction styles generalizing held applied with
  | nil => simp [applyLayers]
  | cons style styles ih =>
    rw [applyLayers]
    dsimp only
    split
    · exact ih
    · simpa using ih

theorem mem_flush_scroll {request : ScrollRequest} {accepted : Bool} :
    .scroll request accepted ∈ (c.flush host).2 ↔ host.attachment.isAttached = true ∧
      ∃ target, c.scroll = some target ∧ host.scrollRequest? target = some request ∧
        host.acceptsScroll = accepted := by
  cases hattached : host.attachment.isAttached with
  | false => simp [flush_detached c hattached]
  | true =>
    rw [flush_attached c hattached]
    simp [scroll_not_mem_applyLayers, Host.scrollTo]

/-- The place to scroll to is that of the last plan in the buffer, and only edits follow the plan. -/
def ScrollPlanned (c : Controller) : Prop :=
  ∀ target, c.scroll = some target →
    ∃ (earlier : List Transaction) (inputs : SyncInputs) (edits : List ChangeSet), c.buffer =
      earlier ++ .plan inputs :: edits.map .edit ∧ (Plan.ofInputs inputs).scroll = some target

theorem scrollPlanned_of_none (h : c.scroll = none) : c.ScrollPlanned := by
  intro target htarget
  rw [h] at htarget
  cases htarget

theorem flush_scroll (c : Controller) (host : Host) : (c.flush host).1.scroll = none := by
  cases hattached : host.attachment.isAttached with
  | false => rw [flush_detached c hattached]
  | true => rw [flush_attached c hattached]

theorem Response.scrollPlanned (h : Response host c event c' calls) (hc : c.ScrollPlanned) :
    c'.ScrollPlanned := by
  cases h with
  | @plan event inputs scrolls hplan hattached flushJob =>
    intro target htarget
    dsimp only at htarget ⊢
    refine ⟨c.buffer, inputs, [], rfl, ?_⟩
    split at htarget
    · exact htarget
    · cases htarget
  | missPlan => exact hc
  | edit changes text hattached flushJob =>
    intro target htarget
    obtain ⟨earlier, inputs, edits, hbuffer, hplan⟩ := hc target htarget
    refine ⟨earlier, inputs, edits ++ [changes], ?_, hplan⟩
    simp [hbuffer]
  | missEdit => exact hc
  | dispose => exact scrollPlanned_of_none rfl
  | flush => exact scrollPlanned_of_none (flush_scroll c host)
  | idle => exact hc
  | frame => exact hc

theorem Response.of_scroll (h : Response host c event c' calls) {request : ScrollRequest}
    {accepted : Bool} (hscroll : .scroll request accepted ∈ calls) :
    c' = (c.flush host).1 ∧ calls = (c.flush host).2 := by
  cases h with
  | flush => exact ⟨rfl, rfl⟩
  | _ => cases hscroll

end Controller

namespace Session

variable {s : Session}

theorem Reachable.scrollPlanned (hs : s.Reachable) : s.controller.ScrollPlanned :=
  hs.invariant (fun _ => Controller.scrollPlanned_of_none rfl) fun h => h.scrollPlanned

def newCalls (s : Session) (host : Host) (event : Event) : List HostCall :=
  (s.handle host event).1.calls.drop s.calls.length

theorem newCalls_turn (hs : s.Armed) (host : Host) {event : Event} (hturn : event.isTurn = true)
    (hpending : s.controller.hasPending = true) :
    s.newCalls host event = (s.controller.flush host).2 := by
  have hcalls : (s.handle host event).1.calls = s.calls ++ (s.controller.flush host).2 :=
    congrArg Prod.snd (handle_flushed hs host hturn hpending)
  rw [newCalls, hcalls, List.drop_left]

/-- Only a flush scrolls, and it leaves the layers that were wanted. -/
theorem scroll_of_mem_newCalls (hs : s.Armed) {host : Host} {event : Event}
    {request : ScrollRequest} {accepted : Bool}
    (hscroll : .scroll request accepted ∈ s.newCalls host event) :
    (s.handle host event).1.controller.layers = s.controller.wanted ∧
      ∃ target, s.controller.scroll = some target ∧ host.scrollRequest? target = some request := by
  obtain ⟨calls, hresponse, hcalls⟩ := handle_response hs host event
  rw [newCalls, hcalls, List.drop_left] at hscroll
  obtain ⟨hflushed, rfl⟩ := hresponse.of_scroll hscroll
  obtain ⟨hattached, target, htarget, hrequest, -⟩ := Controller.mem_flush_scroll.mp hscroll
  refine ⟨?_, target, htarget, hrequest⟩
  rw [hflushed, Controller.flush_attached _ hattached]

/-- A scroll goes to where the last plan put the highlight. What is left of the highlight stands
where the edits that were buffered after the plan carry that place; without such an edit, it stands
there. -/
theorem Reachable.scroll_position (hs : s.Reachable) {host : Host} {event : Event}
    {request : ScrollRequest} {accepted : Bool}
    (hscroll : .scroll request accepted ∈ s.newCalls host event) :
    ∃ (earlier : List Transaction) (inputs : SyncInputs) (edits : List ChangeSet) (style : Style)
      (planned length : Int), s.controller.buffer = earlier ++ .plan inputs :: edits.map .edit ∧
      (∀ t, ((Layers.empty.update (.plan inputs)).get t).first? =
        if t = style then some planned else none) ∧
      host.documentLength = some length ∧ request.position = min planned length ∧
      (∀ t p, ((s.handle host event).1.controller.layers.get t).first? = some p →
        t = style ∧ p = carry edits planned) ∧
      (edits = [] →
        ((s.handle host event).1.controller.layers.get style).first? = some planned) := by
  obtain ⟨hlayers, target, htarget, hrequest⟩ := scroll_of_mem_newCalls hs.armed hscroll
  obtain ⟨earlier, inputs, edits, hbuffer, hplan⟩ := hs.scrollPlanned target htarget
  -- Layers and target part ways after the last plan: later edits move the layers only.
  let before := earlier.foldl Layers.update s.controller.layers
  have hwanted : s.controller.wanted =
      (edits.map Transaction.edit).foldl Layers.update (before.update (.plan inputs)) := by
    simp [Controller.wanted, hbuffer, before]
  rw [hlayers, hwanted]
  obtain ⟨hnonneg, style, hfirst⟩ := Layers.first?_update_plan hplan
  obtain ⟨length, hlength, hposition⟩ := Host.scrollRequest?_position hrequest hnonneg
  refine ⟨earlier, inputs, edits, style, target.position, length, hbuffer, hfirst _, hlength,
    hposition, ?_, ?_⟩
  · intro t p hp
    obtain ⟨q, hq, hcarried⟩ := Layers.first?_foldl_edits edits hp
    rw [hfirst] at hq
    by_cases hstyle : t = style
    · rw [if_pos hstyle] at hq
      cases hq
      exact ⟨hstyle, hcarried⟩
    · rw [if_neg hstyle] at hq
      cases hq
  · rintro rfl
    rw [List.map_nil, List.foldl_nil, hfirst, if_pos rfl]

/-- Two characters are typed in front of a note that is to be scrolled to. -/
theorem scroll_position_shiftedNote :
    let host : Host := ⟨.attached, some 9, some ⟨0, 100⟩, fun _ => some none, fun _ _ => true, true⟩
    let inputs : SyncInputs :=
      ⟨['5', '.', '1', ' ', '5', '.', '2'], none, some ⟨0, 1⟩, none, true⟩
    let changes : ChangeSet := ⟨[⟨0, 0, 2⟩], 7, firstFault?_eq_none_iff.mp rfl⟩
    let s := (initial true).run [(host, .update inputs none), (host, .edit changes none)]
    s.Reachable ∧ .scroll ⟨4, 50⟩ true ∈ s.newCalls host .runPending ∧
      ∃ (earlier : List Transaction) (inputs : SyncInputs) (edits : List ChangeSet) (style : Style)
        (planned length : Int), s.controller.buffer = earlier ++ .plan inputs :: edits.map .edit ∧
        (∀ t, ((Layers.empty.update (.plan inputs)).get t).first? =
          if t = style then some planned else none) ∧
        host.documentLength = some length ∧ 4 = min planned length ∧
        (∀ t p, ((s.handle host .runPending).1.controller.layers.get t).first? = some p →
          t = style ∧ p = carry edits planned) ∧
        (edits = [] →
          ((s.handle host .runPending).1.controller.layers.get style).first? = some planned) := by
  intro host inputs changes s
  have hs : s.Reachable := ⟨true, _, rfl⟩
  have hpending : s.controller.hasPending = true := by
    decide +kernel
  have htarget : s.controller.scroll = some ⟨4, .playback⟩ := by
    decide +kernel
  have hscroll : .scroll ⟨4, 50⟩ true ∈ s.newCalls host .runPending := by
    rw [newCalls_turn hs.armed host rfl hpending]
    exact Controller.mem_flush_scroll.mpr
      ⟨rfl, _, htarget, Host.scrollRequest?_notRendered rfl (by decide) rfl rfl, rfl⟩
  exact ⟨hs, hscroll, hs.scroll_position hscroll⟩

/-- The note moves on to make room, and the scroll goes to where it was. -/
theorem scroll_leftBehind :
    ¬ ∀ (autoScroll : Bool) (events : List (Host × Event)) (host : Host) (event : Event)
      (request : ScrollRequest) (accepted : Bool),
      let s := (initial autoScroll).run events
      (∀ e ∈ (host, event) :: events, e.1.attachment.isAttached = true) →
      .scroll request accepted ∈ s.newCalls host event →
      ∃ style p length, ((s.handle host event).1.controller.layers.get style).first? = some p ∧
        host.documentLength = some length ∧ request.position = min p length := by
  intro h
  let host : Host := ⟨.attached, some 5, some ⟨0, 100⟩, fun _ => some none, fun _ _ => true, true⟩
  let inputs : SyncInputs := ⟨['5', '.', '1'], none, some ⟨0, 0⟩, none, true⟩
  let changes : ChangeSet := ⟨[⟨0, 0, 2⟩], 3, firstFault?_eq_none_iff.mp rfl⟩
  let events : List (Host × Event) := [(host, .update inputs none), (host, .edit changes none)]
  let s := (initial true).run events
  have hs : s.Armed := run_armed (initial_armed true) events
  have hpending : s.controller.hasPending = true := by
    decide +kernel
  have htarget : s.controller.scroll = some ⟨0, .playback⟩ := by
    decide +kernel
  have hscroll : .scroll ⟨0, 50⟩ true ∈ s.newCalls host .runPending := by
    rw [newCalls_turn hs host rfl hpending]
    exact Controller.mem_flush_scroll.mpr
      ⟨rfl, _, htarget, Host.scrollRequest?_notRendered rfl (by decide) rfl rfl, rfl⟩
  have hwanted : ∀ style p, (s.controller.wanted.get style).first? = some p → p = 2 := by
    intro style p hp
    have hfirst : (s.controller.wanted.get style).first? =
        if style = .playback then some 2 else none := by
      simp only [s, events, inputs, changes, host]
      cases style with
      | selection => decide +kernel
      | playback => decide +kernel
      | parkedBar => decide +kernel
    rw [hfirst] at hp
    split at hp
    · exact (Option.some.inj hp).symm
    · cases hp
  obtain ⟨style, p, length, hp, hlength, hposition⟩ :=
    h true events host .runPending ⟨0, 50⟩ true (by simp [events, host, Attachment.isAttached]) hscroll
  rw [(scroll_of_mem_newCalls hs hscroll).1] at hp
  rw [hwanted style p hp] at hposition
  cases hlength
  cases hposition

end Session

end Tablature
