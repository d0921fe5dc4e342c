import Tablature.Proofs.Notation.ModifierForms
import Tablature.Proofs.Notation.Runs
import Tablature.Proofs.Score.BeatOrder

/-!
# Beats and their tokens

Each token that is no modifier is a beat, less the duration glued to its front.
Only the token as a whole is asked whether it is a modifier. So the text of a beat
is one exactly when its token is a duration with another modifier glued to it.
-/

namespace Tablature

section
variable (text : List Char) (ix : LineIndex)

theorem slice_drop (start stop n : Nat) :
    (slice text start stop).drop n = slice text (start + n) stop := by
  rw [slice, slice, List.drop_take, List.drop_drop, Nat.sub_add_eq]

def tokenSpan? (t : Nat × Nat) : Option Span :=
  (modifierLength? (slice text t.1 t.2)).map fun n => ix.span (t.1 + n) t.2

theorem numberBeats_spans (bar beat : Nat) (ms : List Mark) :
    (numberBeats text ix bar beat ms).map Beat.span =
      (tokenSpans ms).filterMap (tokenSpan? text ix) := by
  fun_induction numberBeats text ix bar beat ms with
  | case1 => rfl
  | case2 beat bar ms ih => exact ih
  | case3 bar beat start stop ms hn ih =>
    have hspan : tokenSpan? text ix (start, stop) = none := by simp [tokenSpan?, hn]
    rwa [tokenSpans_token, List.filterMap_cons_none hspan]
  | case4 bar beat start stop ms n hn ih =>
    have hspan : tokenSpan? text ix (start, stop) = some (ix.span (start + n) stop) := by
      simp [tokenSpan?, hn]
    rw [tokenSpans_token, List.filterMap_cons_some hspan, List.map_cons, ih]

end

def Beat.source (b : Beat) (text : List Char) : List Char :=
  slice text b.span.start.toNat b.span.stop.toNat

namespace BeatMap

variable (text : List Char)

def tokens : List (Nat × Nat) := tokenSpans (marksFrom text (startOfContent text))

theorem ofText_spans :
    (ofText text).beats.map Beat.span =
      (tokens text).filterMap (tokenSpan? text (.ofText text)) :=
  numberBeats_spans text (.ofText text) 0 0 _

/-- The token of a beat, and how much of it is left out of the beat. -/
theorem ofText_token {b : Beat} (hb : b ∈ (ofText text).beats) :
    ∃ t ∈ tokens text, ∃ n, modifierLength? (slice text t.1 t.2) = some n ∧
      b.span = (LineIndex.ofText text).span (t.1 + n) t.2 := by
  have hspan : b.span ∈ (ofText text).beats.map Beat.span := List.mem_map_of_mem hb
  rw [ofText_spans, List.mem_filterMap] at hspan
  obtain ⟨t, ht, hspan⟩ := hspan
  obtain ⟨n, hn, hspan⟩ := Option.map_eq_some_iff.mp hspan
  exact ⟨t, ht, n, hn, hspan.symm⟩

theorem ofText_modifier_iff {b : Beat} (hb : b ∈ (ofText text).beats) :
    ∃ start stop : Nat, (start, stop) ∈ tokens text ∧
      start ≤ b.span.start ∧ b.span.stop = stop ∧
      (modifierLength? (b.source text) = none ↔ Stacked (slice text start stop)) := by
  obtain ⟨⟨start, stop⟩, ht, n, hn, hspan⟩ := ofText_token text hb
  have hsource : b.source text = (slice text start stop).drop n := by
    rw [Beat.source, hspan, slice_drop]
    rfl
  refine ⟨start, stop, ht, ?_, by rw [hspan]; rfl, ?_⟩
  · rw [hspan]
    exact Int.ofNat_le.mpr (Nat.le_add_right start n)
  · rw [hsource, modifierLength?_eq_none_iff]
    exact modifierLength?_drop_iff hn

theorem ofText_modifier_iff_twoAnnotations :
    let text := ":8\x7btu 3\x7d\x7bdy fff\x7d 3.2".toList
    let b : Beat := ⟨⟨0, 0⟩, ⟨8, 16, 0, 8, 0, 16⟩⟩
    b ∈ (ofText text).beats ∧ modifierLength? (b.source text) = none ∧
      ∃ start stop : Nat, (start, stop) ∈ tokens text ∧
        start ≤ b.span.start ∧ b.span.stop = stop ∧
        (modifierLength? (b.source text) = none ↔ Stacked (slice text start stop)) := by
  intro text b
  have hb : b ∈ (ofText text).beats := by decide +kernel
  exact ⟨hb, by decide +kernel, ofText_modifier_iff text hb⟩

/-- The annotation that the duration has no room for is left as a beat. -/
theorem modifier_is_beat :
    ¬ ∀ text, ∀ b ∈ (ofText text).beats, modifierLength? (b.source text) ≠ none := by
  intro h
  have hb : (⟨⟨0, 0⟩, ⟨8, 16, 0, 8, 0, 16⟩⟩ : Beat) ∈
      (ofText ":8\x7btu 3\x7d\x7bdy fff\x7d 3.2".toList).beats := by decide +kernel
  exact h _ _ hb (by decide +kernel)

end BeatMap

end Tablature
