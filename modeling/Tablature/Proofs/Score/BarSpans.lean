import Mathlib.Data.List.SplitBy
import Tablature.Proofs.Score.BeatOrder
import Tablature.Score.Lookup

/-!
# The spans of a bar

The runs of a bar follow each other like its beats, so their spans are in order
and apart. They cover some of the text, as beats do.
-/

namespace Tablature

def Span.InText (s : Span) (textLength : Int) : Prop :=
  0 ≤ s.start ∧ s.start < s.stop ∧ s.stop ≤ textLength

namespace BeatMap

theorem runSpan?_eq_some_iff {run : List Beat} {s : Span} :
    runSpan? run = some s ↔ ∃ first last, run.head? = some first ∧ run.getLast? = some last ∧
      s = first.span.hull last.span := by
  constructor
  · intro h
    obtain ⟨first, hfirst, h⟩ := Option.bind_eq_some_iff.mp h
    obtain ⟨last, hlast, h⟩ := Option.bind_eq_some_iff.mp h
    cases h
    exact ⟨first, last, hfirst, hlast, rfl⟩
  · rintro ⟨first, last, hfirst, hlast, rfl⟩
    simp [runSpan?, hfirst, hlast]

def barRuns (m : BeatMap) (bar : Int) : List (List Beat) :=
  (m.beatsInBar bar).splitBy fun a b => a.span.startLine == b.span.startLine

theorem barSpans_eq (m : BeatMap) (bar : Int) :
    m.barSpans bar = (m.barRuns bar).filterMap runSpan? := rfl

theorem flatten_barRuns (m : BeatMap) (bar : Int) : (m.barRuns bar).flatten = m.beatsInBar bar :=
  List.flatten_splitBy _ _

theorem mem_beatsInBar {m : BeatMap} {bar : Int} {b : Beat} :
    b ∈ m.beatsInBar bar ↔ b ∈ m.beats ∧ b.position.bar = bar := by
  rw [beatsInBar, List.mem_filter, beq_iff_eq]

theorem mem_beatsInBar_of_mem_barRuns {m : BeatMap} {bar : Int} {run : List Beat}
    (hrun : run ∈ m.barRuns bar) {b : Beat} (hb : b ∈ run) : b ∈ m.beatsInBar bar :=
  flatten_barRuns m bar ▸ List.mem_flatten_of_mem hrun hb

/-- What holds of beats in order holds within each run and across the runs. -/
theorem pairwise_barRuns {m : BeatMap} {R : Beat → Beat → Prop} (h : m.beats.Pairwise R)
    (bar : Int) :
    (∀ run ∈ m.barRuns bar, run.Pairwise R) ∧
      (m.barRuns bar).Pairwise fun run run' => ∀ a ∈ run, ∀ b ∈ run', R a b := by
  have hbar : (m.beatsInBar bar).Pairwise R := h.filter _
  rwa [← flatten_barRuns, List.pairwise_flatten] at hbar

theorem barSpans_apart {m : BeatMap} (h : m.beats.Pairwise fun a b => a.span.stop ≤ b.span.start)
    (bar : Int) : (m.barSpans bar).Pairwise fun s t => s.stop ≤ t.start := by
  rw [barSpans_eq]
  refine (pairwise_barRuns h bar).2.filterMap runSpan? fun run run' hruns s hs t ht => ?_
  obtain ⟨-, last, -, hlast, rfl⟩ := runSpan?_eq_some_iff.mp hs
  obtain ⟨first, -, hfirst, -, rfl⟩ := runSpan?_eq_some_iff.mp ht
  exact hruns last (List.mem_of_getLast? hlast) first (List.mem_of_head? hfirst)

/-! ## Spans within the text -/

/-- A run of beats in order begins with its first beat, and its last does not end before any
other. -/
theorem runSpan?_covers {run : List Beat} {s : Span}
    (hapart : run.Pairwise fun a b => a.span.stop ≤ b.span.start)
    (hforward : ∀ b ∈ run, b.span.start < b.span.stop) (h : runSpan? run = some s) {b : Beat}
    (hb : b ∈ run) : s.start ≤ b.span.start ∧ b.span.stop ≤ s.stop := by
  obtain ⟨first, last, hfirst, hlast, rfl⟩ := runSpan?_eq_some_iff.mp h
  have hstart : first.span.start ≤ b.span.start := by
    obtain ⟨rest, rfl⟩ := List.head?_eq_some_iff.mp hfirst
    rcases List.mem_cons.mp hb with rfl | hrest
    · exact Int.le_refl _
    · have := List.rel_of_pairwise_cons hapart hrest
      have := hforward first List.mem_cons_self
      omega
  have hstop : b.span.stop ≤ last.span.stop := by
    obtain ⟨front, rfl⟩ := List.getLast?_eq_some_iff.mp hlast
    rcases List.mem_append.mp hb with hfront | hsame
    · have := (List.pairwise_append.mp hapart).2.2 b hfront last (List.mem_singleton_self last)
      have := hforward last (List.mem_append_right front (List.mem_singleton_self last))
      omega
    · cases List.mem_singleton.mp hsame
      exact Int.le_refl _
  exact ⟨hstart, hstop⟩

theorem runSpan?_inText {run : List Beat} {s : Span} {textLength : Int}
    (hapart : run.Pairwise fun a b => a.span.stop ≤ b.span.start)
    (hin : ∀ b ∈ run, b.span.InText textLength) (h : runSpan? run = some s) :
    s.InText textLength := by
  obtain ⟨first, last, hfirst, hlast, rfl⟩ := runSpan?_eq_some_iff.mp h
  have hmem := List.mem_of_head? hfirst
  have hcovers := runSpan?_covers hapart (fun b hb => (hin b hb).2.1) h hmem
  have h₁ := hin first hmem
  have h₂ := hin last (List.mem_of_getLast? hlast)
  unfold Span.InText at h₁ h₂ ⊢
  dsimp only [Span.hull] at hcovers ⊢
  omega

theorem barSpans_inText {m : BeatMap} {textLength : Int}
    (hapart : m.beats.Pairwise fun a b => a.span.stop ≤ b.span.start)
    (hin : ∀ b ∈ m.beats, b.span.InText textLength) (bar : Int) :
    ∀ s ∈ m.barSpans bar, s.InText textLength := by
  intro s hs
  rw [barSpans_eq] at hs
  obtain ⟨run, hrun, hs⟩ := List.mem_filterMap.mp hs
  exact runSpan?_inText ((pairwise_barRuns hapart bar).1 run hrun)
    (fun b hb => hin b (mem_beatsInBar.mp (mem_beatsInBar_of_mem_barRuns hrun hb)).1) hs

theorem ofText_inText {text : List Char} {b : Beat} (hb : b ∈ (ofText text).beats) :
    b.span.InText text.length := by
  obtain ⟨h₁, h₂, h₃⟩ := ofText_inside text hb
  have h₀ : 0 ≤ (ofText text).contentStart := Int.natCast_nonneg _
  exact ⟨Int.le_trans h₀ h₁, h₂, h₃⟩

theorem findOrFirst?_mem {m : BeatMap} {p : ScorePosition} {b : Beat}
    (h : m.findOrFirst? p = some b) : b ∈ m.beats := by
  rcases Option.or_eq_some_iff.mp h with h | ⟨-, h⟩
  · exact List.mem_of_find?_eq_some h
  · exact List.mem_of_find?_eq_some h

theorem selectionSpan?_inText {m : BeatMap} {textLength : Nat} {selection : Selection} {s : Span}
    (h : m.selectionSpan? textLength selection = some s) : s.InText textLength := by
  obtain ⟨first, -, h⟩ := Option.bind_eq_some_iff.mp h
  obtain ⟨last, -, h⟩ := Option.bind_eq_some_iff.mp h
  dsimp only at h
  split at h
  · rename_i hin
    cases h
    exact hin
  · cases h

end BeatMap

end Tablature
