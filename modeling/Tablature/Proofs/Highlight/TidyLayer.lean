import Tablature.Highlight.Layer
import Tablature.Proofs.Highlight.Remap

/-!
# Tidy layers

A layer is tidy when its decorations have its style, cover some of the text, lie
within the text, and stand in order and apart. Spans that are in order and apart
make a tidy layer, and a tidy layer stays tidy through every transaction.
-/

namespace Tablature

namespace DecorationSet

structure Tidy (style : Style) (s : DecorationSet) : Prop where
  inText : ∀ d ∈ s.decorations, 0 ≤ d.start ∧ d.start < d.stop ∧ d.stop ≤ s.docLength
  inStyle : ∀ d ∈ s.decorations, d.style = style
  apart : s.decorations.Pairwise fun d e => d.stop ≤ e.start

theorem tidy_of_nil {s : DecorationSet} (h : s.decorations = []) (style : Style) : s.Tidy style where
  inText := by rw [h]; exact fun _ hd => nomatch hd
  inStyle := by rw [h]; exact fun _ hd => nomatch hd
  apart := by rw [h]; exact .nil

theorem Tidy.map {s s' : DecorationSet} {style : Style} {cs : ChangeSet} (h : s.Tidy style)
    (hm : s.map cs = .ok s') : s'.Tidy style where
  inText := map_inText hm h.inText
  inStyle := map_inStyle hm h.inStyle
  apart := map_apart hm h.apart

/-! ## Building a layer -/

theorem clamp_mono {docLength p q : Int} (h : p ≤ q) : clamp docLength p ≤ clamp docLength q := by
  unfold clamp
  omega

theorem decorate?_eq_some_iff {style : Style} {docLength : Int} {span : Span} {d : Decoration} :
    decorate? style docLength span = some d ↔
      d = ⟨clamp docLength span.start, clamp docLength span.stop, style⟩ ∧ d.start < d.stop := by
  unfold decorate?
  dsimp only
  split
  · rename_i h
    exact ⟨fun e => by cases e; exact ⟨rfl, h⟩, fun e => by rw [e.1]⟩
  · rename_i h
    constructor
    · intro e
      cases e
    · rintro ⟨rfl, hlt⟩
      exact absurd hlt h

variable (spans : List Span) (style : Style) (docLength : Int)

theorem mem_build {d : Decoration} (hd : d ∈ (build spans style docLength).decorations) :
    ∃ span ∈ spans, decorate? style docLength span = some d := by
  have : d ∈ (spans.filterMap (decorate? style docLength)).mergeSort Decoration.before := hd
  rw [List.mem_mergeSort] at this
  exact List.mem_filterMap.mp this

theorem build_inText : ∀ d ∈ (build spans style docLength).decorations,
    0 ≤ d.start ∧ d.start < d.stop ∧ d.stop ≤ docLength := by
  intro d hd
  obtain ⟨span, _, h⟩ := mem_build spans style docLength hd
  obtain ⟨rfl, hlt⟩ := decorate?_eq_some_iff.mp h
  dsimp only [clamp] at hlt ⊢
  omega

theorem build_inStyle : ∀ d ∈ (build spans style docLength).decorations, d.style = style := by
  intro d hd
  obtain ⟨span, _, h⟩ := mem_build spans style docLength hd
  rw [(decorate?_eq_some_iff.mp h).1]

variable {spans}

theorem build_eq_filterMap (h : spans.Pairwise fun s t => s.stop ≤ t.start) :
    (build spans style docLength).decorations = spans.filterMap (decorate? style docLength) ∧
      (spans.filterMap (decorate? style docLength)).Pairwise fun d e => d.stop ≤ e.start := by
  have hapart : (spans.filterMap (decorate? style docLength)).Pairwise fun d e =>
      d.start < d.stop ∧ d.stop ≤ e.start := by
    refine h.filterMap _ fun s t hst d hd e he => ?_
    obtain ⟨rfl, hlt⟩ := decorate?_eq_some_iff.mp hd
    obtain ⟨rfl, _⟩ := decorate?_eq_some_iff.mp he
    exact ⟨hlt, clamp_mono hst⟩
  refine ⟨List.mergeSort_of_pairwise (hapart.imp_of_mem fun {d e} hd he hde => ?_),
    hapart.imp fun hde => hde.2⟩
  unfold Decoration.before
  have : d.start < e.start := by omega
  rw [decide_eq_true this, Bool.true_or]

theorem build_tidy (h : spans.Pairwise fun s t => s.stop ≤ t.start) :
    (build spans style docLength).Tidy style where
  inText := build_inText spans style docLength
  inStyle := build_inStyle spans style docLength
  apart := by
    obtain ⟨hb, hapart⟩ := build_eq_filterMap style docLength h
    rwa [hb]

end DecorationSet

/-! ## Layers through transactions -/

def LayerEffect.Apart (e : LayerEffect) : Prop :=
  ∀ spans, e.content = .install spans → spans.Pairwise fun s t => s.stop ≤ t.start

/-- An effect leaves nothing on its layer, or what is built from its spans. -/
theorem LayerEffect.layer_cases (e : LayerEffect) (docLength : Int) :
    e.layer docLength = .empty ∨
      ∃ spans, e.content = .install spans ∧ e.layer docLength = .build spans e.style docLength := by
  unfold layer
  split
  · exact .inl rfl
  · exact .inl rfl
  · exact .inl rfl
  · rename_i spans _ hcontent
    exact .inr ⟨spans, hcontent, rfl⟩

theorem LayerEffect.layer_tidy {e : LayerEffect} (h : e.Apart) (docLength : Int) :
    (e.layer docLength).Tidy e.style := by
  rcases e.layer_cases docLength with heq | ⟨spans, hcontent, heq⟩
  · rw [heq]
    exact DecorationSet.tidy_of_nil rfl _
  · rw [heq]
    exact DecorationSet.build_tidy _ _ (h spans hcontent)

/-- A layer after a transaction comes from an effect on it, or is what an edit makes of it. -/
theorem updateLayer_cases (style : Style) (current : DecorationSet) (t : Transaction) :
    (∃ e ∈ t.effects, e.style = style ∧ updateLayer style current t = e.layer t.docLength) ∨
      (∀ e ∈ t.effects, e.style ≠ style) ∧
        (updateLayer style current t = current ∨ updateLayer style current t = .empty ∨
          ∃ cs, t.changes = some cs ∧ current.map cs = .ok (updateLayer style current t)) := by
  cases he : (t.effects.filter (·.style == style)).getLast? with
  | some e =>
    have hmem := List.mem_filter.mp (List.mem_of_getLast? he)
    refine .inl ⟨e, hmem.1, beq_iff_eq.mp hmem.2, ?_⟩
    simp only [updateLayer, he]
  | none =>
    have hnil := List.filter_eq_nil_iff.mp (List.getLast?_eq_none_iff.mp he)
    refine .inr ⟨fun e hmem hstyle => hnil e hmem (beq_iff_eq.mpr hstyle), ?_⟩
    cases hc : t.changes with
    | none => exact .inl (by simp only [updateLayer, he, hc])
    | some cs =>
      by_cases hempty : cs.isEmpty = true
      · exact .inl (by simp only [updateLayer, he, hc, hempty, if_true])
      · cases hm : current.map cs with
        | error _ => exact .inr (.inl (by simp only [updateLayer, he, hc, if_neg hempty, hm]))
        | ok mapped =>
          exact .inr (.inr ⟨cs, rfl, by simp only [updateLayer, he, hc, if_neg hempty, hm]⟩)

theorem updateLayer_tidy {style : Style} {current : DecorationSet} {t : Transaction}
    (h : current.Tidy style) (ht : ∀ e ∈ t.effects, e.Apart) :
    (updateLayer style current t).Tidy style := by
  rcases updateLayer_cases style current t with ⟨e, he, rfl, heq⟩ | ⟨-, heq | heq | ⟨cs, -, hm⟩⟩
  · rw [heq]
    exact LayerEffect.layer_tidy (ht e he) _
  · rwa [heq]
  · rw [heq]
    exact DecorationSet.tidy_of_nil rfl _
  · exact h.map hm

end Tablature
