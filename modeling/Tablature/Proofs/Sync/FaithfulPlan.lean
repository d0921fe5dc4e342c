import Tablature.Proofs.Sync.PlannedLayers

/-!
# What a plan shows

A plan shows exactly the spans that its mode finds in the text. They can be built
into a layer as they are, and when the highlight follows the player, the plan
scrolls to where the first of them begins.
-/

namespace Tablature

namespace DecorationSet

variable {spans : List Span} {docLength : Int}

theorem decorate?_of_inText {s : Span} (h : s.InText docLength) (style : Style) :
    decorate? style docLength s = some ⟨s.start, s.stop, style⟩ := by
  obtain ⟨h₁, h₂, h₃⟩ := h
  have hstart : clamp docLength s.start = s.start := by
    unfold clamp
    omega
  have hstop : clamp docLength s.stop = s.stop := by
    unfold clamp
    omega
  exact decorate?_eq_some_iff.mpr ⟨by rw [hstart, hstop], h₂⟩

/-- Building takes spans as they are when they lie within the text, in order and apart. -/
theorem build_eq_map (hin : ∀ s ∈ spans, s.InText docLength)
    (hapart : spans.Pairwise fun s t => s.stop ≤ t.start) (style : Style) :
    (build spans style docLength).decorations = spans.map fun s => ⟨s.start, s.stop, style⟩ := by
  rw [(build_eq_filterMap style docLength hapart).1, ← List.filterMap_eq_map]
  exact List.filterMap_congr fun s hs => decorate?_of_inText (hin s hs) style

end DecorationSet

namespace Mode

theorem spans_of_style?_eq_none {mode : Mode} (h : mode.style? = none) (m : BeatMap)
    (textLength : Nat) : mode.spans m textLength = [] := by
  cases mode with
  | idle => rfl
  | _ => cases h

theorem scrollKind?_isSome_iff {mode : Mode} {style : Style} (h : mode.style? = some style) :
    mode.scrollKind?.isSome = true ↔ style = .playback ∨ style = .parkedBar := by
  cases mode <;> cases h <;> simp [scrollKind?]

end Mode

namespace Plan

variable (inputs : SyncInputs)

theorem ofInputs_mode : (ofInputs inputs).mode = Mode.ofInputs inputs := by
  rcases ofInputs_cases inputs with h | ⟨style, first, rest, -, -, h⟩
  · rw [h]
    rfl
  · rw [h]
    rfl

variable {inputs}

theorem ofInputs_of_nil
    (h : (Mode.ofInputs inputs).spans (.ofText inputs.text) inputs.text.length = []) :
    ofInputs inputs = clearAll (Mode.ofInputs inputs) := by
  refine (ofInputs_cases inputs).resolve_right ?_
  rintro ⟨style, first, rest, -, hspans, -⟩
  rw [h] at hspans
  cases hspans

theorem ofInputs_of_cons {first : Span} {rest : List Span}
    (h : (Mode.ofInputs inputs).spans (.ofText inputs.text) inputs.text.length = first :: rest) :
    ∃ style, (Mode.ofInputs inputs).style? = some style ∧
      ofInputs inputs = fill (Mode.ofInputs inputs) style first rest := by
  cases hstyle : (Mode.ofInputs inputs).style? with
  | none =>
    rw [Mode.spans_of_style?_eq_none hstyle] at h
    cases h
  | some style =>
    refine ⟨style, rfl, ?_⟩
    simp only [ofInputs, hstyle, h]

theorem clears_of_mem_clear {styles : List Style} {e : LayerEffect}
    (he : e ∈ styles.map .clear) : e.clears = true := by
  obtain ⟨style, -, rfl⟩ := List.mem_map.mp he
  rfl

theorem fill_scroll {mode : Mode} {style : Style} (h : mode.style? = some style) (first : Span)
    (rest : List Span) :
    ((fill mode style first rest).scroll.isSome = true ↔ style = .playback ∨ style = .parkedBar) ∧
      ∀ target ∈ (fill mode style first rest).scroll, target.position = first.start := by
  refine ⟨?_, fun target htarget => ?_⟩
  · rw [← Mode.scrollKind?_isSome_iff h]
    exact Bool.eq_iff_iff.mp Option.isSome_map
  · obtain ⟨kind, -, rfl⟩ := Option.map_eq_some_iff.mp htarget
    rfl

variable (inputs)

/-- A plan names each layer once. It clears layers first, and then fills at most one, that of its
mode, with all that the mode finds; nothing of this is lost or moved when the layer is built. -/
theorem ofInputs_faithful :
    let plan := ofInputs inputs
    let spans := plan.mode.spans (.ofText inputs.text) inputs.text.length
    plan.mode = Mode.ofInputs inputs ∧
    (plan.effects.map LayerEffect.style).Perm Style.all ∧
    (∃ clearing : List LayerEffect, (∀ e ∈ clearing, e.clears = true) ∧
      (spans = [] ∧ plan.effects = clearing ∧ plan.scroll = none ∨
        ∃ style first rest, spans = first :: rest ∧ plan.mode.style? = some style ∧
          plan.effects = clearing ++ [.install style spans] ∧
          (plan.scroll.isSome = true ↔ style = .playback ∨ style = .parkedBar) ∧
          ∀ target ∈ plan.scroll, target.position = first.start)) ∧
    (∀ s ∈ spans, s.InText inputs.text.length) ∧
    spans.Pairwise (fun s t => s.stop ≤ t.start) ∧
    ∀ style, (DecorationSet.build spans style inputs.text.length).decorations =
      spans.map fun s => ⟨s.start, s.stop, style⟩ := by
  intro plan spans
  have hmode : plan.mode = Mode.ofInputs inputs := ofInputs_mode inputs
  have hin : ∀ s ∈ spans, s.InText inputs.text.length := Mode.spans_inText plan.mode inputs.text
  have hapart : spans.Pairwise fun s t => s.stop ≤ t.start := Mode.spans_apart plan.mode _ _
  refine ⟨hmode, ofInputs_styles inputs, ?_, hin, hapart, DecorationSet.build_eq_map hin hapart⟩
  have hspans : spans = (Mode.ofInputs inputs).spans (.ofText inputs.text) inputs.text.length := by
    rw [← hmode]
  cases hfound : spans with
  | nil =>
    have hplan : plan = clearAll (Mode.ofInputs inputs) := ofInputs_of_nil (hspans ▸ hfound)
    refine ⟨Style.all.map .clear, fun e => clears_of_mem_clear, .inl ⟨rfl, ?_, ?_⟩⟩
    · rw [hplan]
      rfl
    · rw [hplan]
      rfl
  | cons first rest =>
    obtain ⟨style, hstyle, hfill⟩ := ofInputs_of_cons (hspans ▸ hfound)
    have hplan : plan = fill (Mode.ofInputs inputs) style first rest := hfill
    refine ⟨(Style.all.filter (· != style)).map .clear, fun e => clears_of_mem_clear,
      .inr ⟨style, first, rest, rfl, hmode ▸ hstyle, ?_, ?_⟩⟩
    · rw [hplan]
      rfl
    · rw [hplan]
      exact fill_scroll hstyle first rest

end Plan

end Tablature
