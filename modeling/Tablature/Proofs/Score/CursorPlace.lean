import Mathlib.Data.List.Nodup
import Tablature.Proofs.Score.BeatOrder
import Tablature.Proofs.Text.LinePlace
import Tablature.Score.Lookup

/-!
# The beat at an offset

An offset inside a beat leads to that beat, unless another one ends there. A beat
is touched by the offset just past it, and of two beats that an offset touches
the first is taken.
-/

namespace Tablature

theorem Span.contains_iff {s : Span} {o : Int} : s.contains o = true ↔ s.start ≤ o ∧ o ≤ s.stop := by
  simp [contains]

section
variable {beats : List Beat} (hapart : beats.Pairwise fun a b => a.span.stop ≤ b.span.start)
variable {o : Int} {r : Beat} (hr : beats.find? (·.span.contains o) = some r)
include hr

theorem find?_contains_touches : r.span.start ≤ o ∧ o ≤ r.span.stop := by
  have := List.find?_some hr
  exact Span.contains_iff.mp this

include hapart

/-- All other beats that touch the offset start behind the one that is found. -/
theorem find?_contains_first {a : Beat} (ha : a ∈ beats) (ho : a.span.contains o = true) :
    r = a ∨ r.span.stop ≤ a.span.start := by
  obtain ⟨-, front, back, hsplit, hfront⟩ := List.find?_eq_some_iff_append.mp hr
  rw [hsplit] at ha hapart
  rcases List.mem_append.mp ha with hmem | hmem
  · have := hfront a hmem
    simp [ho] at this
  · rcases List.mem_cons.mp hmem with heq | hmem
    · exact .inl heq.symm
    · exact .inr (List.rel_of_pairwise_cons (List.pairwise_append.mp hapart).2.1 hmem)

theorem find?_contains_inside {b : Beat} (hb : b ∈ beats) (h₁ : b.span.start ≤ o)
    (h₂ : o < b.span.stop) : r = b ∨ r.span.stop = o := by
  have hself : b.span.contains o = true := Span.contains_iff.mpr ⟨h₁, Int.le_of_lt h₂⟩
  have htouch := find?_contains_touches hr
  rcases find?_contains_first hapart hr hb hself with heq | hle
  · exact .inl heq
  · exact .inr (by omega)

theorem find?_contains_end {a : Beat} (ha : a ∈ beats) (hlt : a.span.start < a.span.stop)
    (ho : a.span.stop = o) : r = a := by
  have hself : a.span.contains o = true := Span.contains_iff.mpr (by omega)
  have htouch := find?_contains_touches hr
  rcases find?_contains_first hapart hr ha hself with heq | hle
  · exact heq
  · omega

end

/-- The line and column of an offset lead to the beat at the offset, moved into the text. -/
theorem locate_position (text : List Char) (o : Int) :
    (locate text (offsetToLineCol text o).1 (offsetToLineCol text o).2).position =
      (((BeatMap.ofText text).beatAt? (clampTo text.length o)).map Beat.position).getD .nowhere := by
  have hback : (LineIndex.ofText text).lineColToOffset (offsetToLineCol text o).1
      (offsetToLineCol text o).2 = clampTo text.length o :=
    LineIndex.lineColToOffset_offsetToLineCol_eq_clampTo text o
  simp only [locate, BeatMap.locate]
  rw [hback]

theorem locate_eq_of_find? {text : List Char} {b r : Beat} (hb : b ∈ (BeatMap.ofText text).beats)
    {o : Int} (h₁ : b.span.start ≤ o) (h₂ : o < b.span.stop)
    (hr : (BeatMap.ofText text).beats.find? (·.span.contains o) = some r) :
    (locate text (offsetToLineCol text o).1 (offsetToLineCol text o).2).position = r.position := by
  obtain ⟨hcontent, hlt, hlength⟩ := BeatMap.ofText_inside text hb
  have hstart : (0 : Int) ≤ (BeatMap.ofText text).contentStart := Int.natCast_nonneg _
  obtain ⟨n, rfl⟩ := Int.eq_ofNat_of_zero_le (show 0 ≤ o by omega)
  have hbeat : (BeatMap.ofText text).beatAt? n = some r := by
    rw [BeatMap.beatAt?, if_neg (by omega), hr, Option.some_or]
  rw [locate_position, clampTo_natCast (by omega), hbeat]
  rfl

theorem locate_inside (text : List Char) {b : Beat} (hb : b ∈ (BeatMap.ofText text).beats) {o : Int}
    (h₁ : b.span.start ≤ o) (h₂ : o < b.span.stop) :
    let place := (locate text (offsetToLineCol text o).1 (offsetToLineCol text o).2).position
    (place = b.position ↔ ∀ a ∈ (BeatMap.ofText text).beats, a.span.stop ≠ o) ∧
      ∀ a ∈ (BeatMap.ofText text).beats, a.span.stop = o → place = a.position := by
  intro place
  have hapart := BeatMap.ofText_apart text
  have hnodup : ((BeatMap.ofText text).beats.map Beat.position).Nodup :=
    List.pairwise_map.mpr ((BeatMap.ofText_rise text).imp fun h => h.ne)
  obtain ⟨r, hr⟩ : ∃ r, (BeatMap.ofText text).beats.find? (·.span.contains o) = some r := by
    rw [← Option.isSome_iff_exists, List.find?_isSome]
    exact ⟨b, hb, Span.contains_iff.mpr ⟨h₁, Int.le_of_lt h₂⟩⟩
  have hplace : place = r.position := locate_eq_of_find? hb h₁ h₂ hr
  have hend : ∀ a ∈ (BeatMap.ofText text).beats, a.span.stop = o → r = a := by
    intro a ha hstop
    exact find?_contains_end hapart hr ha (BeatMap.ofText_inside text ha).2.1 hstop
  refine ⟨⟨?_, ?_⟩, ?_⟩
  · intro heq a ha hstop
    have hrb : r = b :=
      List.inj_on_of_nodup_map hnodup (List.mem_of_find?_eq_some hr) hb (hplace ▸ heq)
    have hra := hend a ha hstop
    rw [← hra, hrb] at hstop
    omega
  · intro hnone
    rcases find?_contains_inside hapart hr hb h₁ h₂ with rfl | hstop
    · exact hplace
    · exact absurd hstop (hnone r (List.mem_of_find?_eq_some hr))
  · intro a ha hstop
    rw [hplace, hend a ha hstop]

theorem locate_inside_chord :
    let text := "(1)(2)".toList
    let b : Beat := ⟨⟨0, 1⟩, ⟨3, 6, 0, 3, 0, 6⟩⟩
    let place := (locate text (offsetToLineCol text 4).1 (offsetToLineCol text 4).2).position
    (b ∈ (BeatMap.ofText text).beats ∧ b.span.start ≤ 4 ∧ 4 < b.span.stop) ∧
      (place = b.position ↔ ∀ a ∈ (BeatMap.ofText text).beats, a.span.stop ≠ 4) ∧
      ∀ a ∈ (BeatMap.ofText text).beats, a.span.stop = 4 → place = a.position := by
  intro text b place
  have hb : b ∈ (BeatMap.ofText text).beats := by decide +kernel
  exact ⟨⟨hb, by decide, by decide⟩, locate_inside text hb (o := 4) (by decide) (by decide)⟩

/-- At the seam of two chords the cursor stays with the first. -/
theorem locate_seam_ne :
    ¬ ∀ (text : List Char), ∀ b ∈ (BeatMap.ofText text).beats, ∀ o : Int,
      b.span.start ≤ o → o < b.span.stop →
        (locate text (offsetToLineCol text o).1 (offsetToLineCol text o).2).position =
          b.position := by
  intro h
  have hb : (⟨⟨0, 1⟩, ⟨3, 6, 0, 3, 0, 6⟩⟩ : Beat) ∈ (BeatMap.ofText "(1)(2)".toList).beats := by
    decide +kernel
  exact absurd (h _ _ hb 3 (by decide) (by decide)) (by decide +kernel)

end Tablature
