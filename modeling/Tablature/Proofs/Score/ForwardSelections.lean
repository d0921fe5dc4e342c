import Tablature.Proofs.Score.SelectionSpans

/-!
# Forward selections

A selection that runs forward in the score is lost when its two ends resolve to
beats in the opposite order. While both bars have beats this happens in one way
only: the last beat is gone, so that the selection ends with the first beat of
its own bar, and begins behind it. A bar without beats takes its end to a
nearest beat, which may be on either side of the other end.
-/

namespace Tablature

def Selection.IsForward (s : Selection) : Prop :=
  s.first.bar < s.last.bar ∨ s.first.bar = s.last.bar ∧ s.first.beat ≤ s.last.beat

theorem Selection.IsForward.not_precedes {s : Selection} (h : s.IsForward) :
    ¬ s.last.Precedes s.first := by
  unfold IsForward at h
  unfold ScorePosition.Precedes
  omega

namespace BeatMap

variable {text : List Char}

theorem ofText_beat_nonneg {b : Beat} (hb : b ∈ (ofText text).beats) : 0 ≤ b.position.beat := by
  have hmem : b ∈ (ofText text).beatsInBar b.position.bar := mem_beatsInBar.mpr ⟨hb, rfl⟩
  have hbeat := List.mem_map_of_mem (f := (·.position.beat)) hmem
  rw [ofText_numbered] at hbeat
  obtain ⟨n, -, hn⟩ := List.mem_map.mp hbeat
  exact hn ▸ Int.natCast_nonneg n

theorem ofText_beat_eq_zero {bar : Int} {i : Nat} {b : Beat} (hb : (ofText text).beats[i]? = some b)
    (h : FirstAt (·.position.bar = bar) (ofText text).beats i) : b.position.beat = 0 := by
  have hfound : (ofText text).beats.find? (·.position.bar == bar) = some b := by
    rw [find?_of_firstAt (by simpa using h), hb]
  have hnumbered := ofText_numbered text bar
  rw [← List.head?_filter] at hfound
  obtain ⟨rest, hrest⟩ := List.head?_eq_some_iff.mp hfound
  rw [beatsInBar, hrest, List.map_cons, List.length_cons, List.range_succ_eq_map, List.map_cons,
    List.cons.injEq] at hnumbered
  exact hnumbered.1

theorem ofText_selectionSpan?_eq_none_iff {s : Selection} {i j : Nat}
    (hi : ResolvesTo (ofText text).beats s.first i) (hj : ResolvesTo (ofText text).beats s.last j)
    (hne : (ofText text).beats ≠ []) :
    (ofText text).selectionSpan? text.length s = none ↔ j < i := by
  obtain ⟨i', a, hi', ha, hfirst⟩ := resolve?_of_ne_nil hne s.first
  obtain ⟨j', b, hj', hb, hlast⟩ := resolve?_of_ne_nil hne s.last
  rw [(hfirst i).mp hi, (hlast j).mp hj]
  rcases ofText_selectionSpan?_cases hi' ha hj' hb with ⟨hlt, hnone⟩ | ⟨hle, -, hspan⟩
  · exact iff_of_true hnone hlt
  · exact iff_of_false (by rw [hspan]; nofun) (Nat.not_lt.mpr hle)

section
variable {s : Selection} (hforward : s.IsForward) {i j : Nat}
  (hi : ResolvesTo (ofText text).beats s.first i) (hj : ResolvesTo (ofText text).beats s.last j)
  (hbar : ∃ b ∈ (ofText text).beats, b.position.bar = s.first.bar)
  (hbar' : ∃ b ∈ (ofText text).beats, b.position.bar = s.last.bar)
include hforward hi hj hbar hbar'

/-- While both bars have beats, the two ends change places in one way: the first is a beat, though
not the first of its bar, and the last is a place in the same bar without a beat. -/
theorem ofText_lt_iff_of_bars :
    j < i ↔ s.first.bar = s.last.bar ∧ 0 < s.first.beat ∧
      (∃ b ∈ (ofText text).beats, b.position = s.first) ∧
      ∀ b ∈ (ofText text).beats, b.position ≠ s.last := by
  obtain ⟨a, ha⟩ := hi.exists_getElem?
  obtain ⟨b, hb⟩ := hj.exists_getElem?
  obtain ⟨habar, hacases⟩ := hi.cases_of_bar ha hbar
  obtain ⟨hbbar, hbcases⟩ := hj.cases_of_bar hb hbar'
  constructor
  · intro hlt
    have hprecedes : b.position.Precedes a.position := rel_of_getElem? (ofText_rise text) hb ha hlt
    have hbars : s.first.bar = s.last.bar := by
      have := hprecedes.bar_le
      unfold Selection.IsForward at hforward
      omega
    rcases hacases with hahere | ⟨-, hafirst⟩
    · rcases hbcases with hbhere | ⟨hgone, -⟩
      · -- both beats are there, in the order of the places
        rw [hahere, hbhere] at hprecedes
        exact absurd hprecedes hforward.not_precedes
      · have := ofText_beat_nonneg (List.mem_of_getElem? hb)
        refine ⟨hbars, ?_, ⟨a, List.mem_of_getElem? ha, hahere⟩, hgone⟩
        rw [hahere] at hprecedes
        unfold ScorePosition.Precedes at hprecedes
        omega
    · -- nothing in the bar stands in front of its first beat
      have := hafirst.le_of_test hb (hbbar.trans hbars.symm)
      omega
  · rintro ⟨hbars, hpos, ⟨c, hc, hhere⟩, hgone⟩
    have hahere : a.position = s.first := by
      refine hacases.resolve_right fun h => ?_
      exact h.1 c hc hhere
    have hbfirst : FirstAt (·.position.bar = s.last.bar) (ofText text).beats j := by
      refine (hbcases.resolve_left ?_).2
      exact hgone b (List.mem_of_getElem? hb)
    refine Nat.lt_of_le_of_ne (hbfirst.le_of_test ha (habar.trans hbars)) fun hsame => ?_
    subst hsame
    rw [← hahere, ofText_beat_eq_zero ha hbfirst] at hpos
    omega

end

/-- A forward selection covers nothing when its first place is a beat, though not the first of its
bar, and its last place a missing beat of the same bar; or when one of its bars has no beats and the
nearest one takes it past the other end. Otherwise it covers something. -/
theorem ofText_selectionSpan?_forward {text : List Char} {s : Selection}
    (hne : (ofText text).beats ≠ []) (hforward : s.IsForward) :
    let beats := (ofText text).beats
    (ofText text).selectionSpan? text.length s = none ↔
      (s.first.bar = s.last.bar ∧ 0 < s.first.beat ∧ (∃ b ∈ beats, b.position = s.first) ∧
        ∀ b ∈ beats, b.position ≠ s.last) ∨
      ((∀ b ∈ beats, b.position.bar ≠ s.first.bar) ∨ ∀ b ∈ beats, b.position.bar ≠ s.last.bar) ∧
        ∃ i j, ResolvesTo beats s.first i ∧ ResolvesTo beats s.last j ∧ j < i := by
  intro beats
  obtain ⟨i, -, -, -, hfirst⟩ := resolve?_of_ne_nil hne s.first
  obtain ⟨j, -, -, -, hlast⟩ := resolve?_of_ne_nil hne s.last
  have hi := (hfirst i).mpr rfl
  have hj := (hlast j).mpr rfl
  rw [ofText_selectionSpan?_eq_none_iff hi hj hne]
  by_cases hbars : (∀ b ∈ beats, b.position.bar ≠ s.first.bar) ∨
      ∀ b ∈ beats, b.position.bar ≠ s.last.bar
  · constructor
    · exact fun hlt => .inr ⟨hbars, i, j, hi, hj, hlt⟩
    · rintro (⟨hsame, -, ⟨b, hb, hhere⟩, -⟩ | ⟨-, i', j', hi', hj', hlt⟩)
      · -- the first beat is there, so neither bar is without beats
        have hbar : b.position.bar = s.first.bar := hhere ▸ rfl
        rcases hbars with hnone | hnone
        · exact absurd hbar (hnone b hb)
        · exact absurd (hbar.trans hsame) (hnone b hb)
      · rwa [(hfirst i').mp hi', (hlast j').mp hj'] at hlt
  · have hbar : (∃ b ∈ beats, b.position.bar = s.first.bar) ∧
        ∃ b ∈ beats, b.position.bar = s.last.bar := by
      simpa only [not_or, not_forall, not_not, exists_prop] using hbars
    rw [ofText_lt_iff_of_bars hforward hi hj hbar.1 hbar.2]
    exact (or_iff_left fun h => hbars h.1).symm

/-- The bar of the last place is not there, and the nearest beat is the first of the other bar. -/
theorem ofText_selectionSpan?_forward_missingBar :
    let text := "1 2".toList
    let s : Selection := ⟨⟨0, 1⟩, ⟨1, 0⟩⟩
    let beats := (ofText text).beats
    (beats ≠ [] ∧ s.IsForward) ∧ (ofText text).selectionSpan? text.length s = none ∧
      ((s.first.bar = s.last.bar ∧ 0 < s.first.beat ∧ (∃ b ∈ beats, b.position = s.first) ∧
        ∀ b ∈ beats, b.position ≠ s.last) ∨
      ((∀ b ∈ beats, b.position.bar ≠ s.first.bar) ∨ ∀ b ∈ beats, b.position.bar ≠ s.last.bar) ∧
        ∃ i j, ResolvesTo beats s.first i ∧ ResolvesTo beats s.last j ∧ j < i) := by
  intro text s beats
  have hne : beats ≠ [] := by decide +kernel
  have hforward : s.IsForward := .inl (by decide)
  have hnone : (ofText text).selectionSpan? text.length s = none := by decide +kernel
  exact ⟨⟨hne, hforward⟩, hnone, (ofText_selectionSpan?_forward hne hforward).mp hnone⟩

/-- From the second beat to a third one that is not there. -/
theorem forward_selection_lost :
    ¬ ∀ (text : List Char) (s : Selection), (ofText text).beats ≠ [] → s.IsForward →
      (0 ≤ s.first.bar ∧ 0 ≤ s.first.beat ∧ 0 ≤ s.last.bar ∧ 0 ≤ s.last.beat) →
        (ofText text).selectionSpan? text.length s ≠ none := by
  intro h
  let s : Selection := ⟨⟨0, 1⟩, ⟨0, 2⟩⟩
  have hnone : (ofText "1 2".toList).selectionSpan? "1 2".toList.length s = none := by
    decide +kernel
  exact h "1 2".toList s (by decide +kernel) (.inr (by decide)) (by decide) hnone

end BeatMap

end Tablature
