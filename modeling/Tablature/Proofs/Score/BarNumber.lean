import Mathlib.Data.Nat.Count
import Tablature.Proofs.Notation.TokenRuns
import Tablature.Proofs.Score.BeatOrder

/-!
# The number of a bar

The bar of a beat is the number of bar lines in front of it. Marks keep every
bar line of a reading, and neither a token nor the stretch between two marks
holds one, so numbering counts them all and counts each once.
-/

namespace Tablature

def barLinesBefore (f : Nat → Option Place) (o : Nat) : Nat :=
  Nat.count (fun j => (f j).any Place.isBarLine = true) o

section
variable {f : Nat → Option Place}

theorem barLinesBefore_succ {o : Nat} (h : (f o).any Place.isBarLine = true) :
    barLinesBefore f (o + 1) = barLinesBefore f o + 1 :=
  Nat.count_succ_eq_succ_count h

theorem barLinesBefore_eq {lo hi : Nat} (h : lo ≤ hi)
    (hnone : ∀ o, lo ≤ o → o < hi → (f o).any Place.isBarLine = false) :
    barLinesBefore f hi = barLinesBefore f lo := by
  refine Nat.le_antisymm (Nat.not_lt.mp fun hlt => ?_) (Nat.count_monotone _ h)
  obtain ⟨o, ⟨hlo, hhi⟩, hbar⟩ := Nat.exists_of_count_lt_count hlt
  rw [hnone o hlo hhi] at hbar
  cases hbar

theorem Silent.barLinesBefore_eq {lo hi : Nat} (hs : Silent f lo hi) (h : lo ≤ hi) :
    barLinesBefore f hi = barLinesBefore f lo :=
  Tablature.barLinesBefore_eq h fun o hlo hhi => (hs o hlo hhi).2

theorem IsRun.barLinesBefore_eq {lo start stop o : Nat} (h : IsRun f start stop) (hlo : lo ≤ start)
    (hs : Silent f lo start) (hstart : start ≤ o) (hstop : o ≤ stop) :
    barLinesBefore f o = barLinesBefore f lo := by
  rw [← hs.barLinesBefore_eq hlo]
  -- a bar line parts tokens, so no run has one
  refine Tablature.barLinesBefore_eq hstart fun j hj hjo => Bool.eq_false_iff.mpr fun hbar => ?_
  have := h.whole j hj (Nat.lt_of_lt_of_le hjo hstop)
  rw [gap_of_barLine hbar] at this
  cases this

theorem Runs.barLinesBefore_eq {ms : List Mark} {lo hi : Nat} (h : Runs f lo ms hi) :
    barLinesBefore f hi = barLinesBefore f lo + ms.count .bar := by
  induction ms generalizing lo with
  | nil => exact h.2.barLinesBefore_eq h.1
  | cons m ms ih =>
    cases m with
    | bar =>
      obtain ⟨k, hk, hs, hbar, h⟩ := h
      rw [ih h, barLinesBefore_succ hbar, hs.barLinesBefore_eq hk, List.count_cons_self]
      omega
    | token start stop =>
      obtain ⟨hstart, hs, hrun, -, h⟩ := h
      have hstop := hrun.barLinesBefore_eq hstart hs (Nat.le_of_lt hrun.lt) (Nat.le_refl stop)
      rw [ih h, hstop, List.count_cons_of_ne (by simp)]

variable (text : List Char) (ix : LineIndex)

theorem numberBeats_bar {lo hi : Nat} {ms : List Mark} (h : Runs f lo ms hi)
    (hle : hi ≤ text.length) {bar : Nat} (hbar : bar = barLinesBefore f lo) (beat : Nat) {b : Beat}
    (hb : b ∈ numberBeats text ix bar beat ms) :
    b.position.bar = barLinesBefore f b.span.start.toNat := by
  fun_induction numberBeats text ix bar beat ms generalizing lo with
  | case1 => cases hb
  | case2 beat bar ms ih =>
    obtain ⟨k, hk, hs, hline, h⟩ := h
    have hnext : bar + 1 = barLinesBefore f (k + 1) := by
      rw [barLinesBefore_succ hline, hs.barLinesBefore_eq hk, hbar]
    exact ih h hnext hb
  | case3 bar beat start stop ms hn ih =>
    obtain ⟨hlo, hs, hrun, -, h⟩ := h
    have hstop := hrun.barLinesBefore_eq hlo hs (Nat.le_of_lt hrun.lt) (Nat.le_refl stop)
    exact ih h (hbar.trans hstop.symm) hb
  | case4 bar beat start stop ms n hn ih =>
    obtain ⟨hlo, hs, hrun, -, h⟩ := h
    rcases List.mem_cons.mp hb with rfl | hb
    · -- the beat begins behind its duration, still inside the run
      have hlt := add_modifierLength?_lt hrun.lt (Nat.le_trans h.le hle) hn
      have hstart := hrun.barLinesBefore_eq hlo hs (Nat.le_add_right start n) (Nat.le_of_lt hlt)
      exact congrArg Int.ofNat (hbar.trans hstart.symm)
    · have hstop := hrun.barLinesBefore_eq hlo hs (Nat.le_of_lt hrun.lt) (Nat.le_refl stop)
      exact ih h (hbar.trans hstop.symm) hb

end

theorem barLinesBefore_placeAt? (text : List Char) (start : Nat) :
    barLinesBefore (placeAt? text start) start = 0 := by
  refine barLinesBefore_eq (Nat.zero_le start) fun o _ ho => ?_
  rw [placeAt?, if_neg (Nat.not_le.mpr ho)]
  rfl

theorem BeatMap.ofText_bar (text : List Char) {b : Beat} (hb : b ∈ (BeatMap.ofText text).beats) :
    b.position.bar =
      barLinesBefore (placeAt? text (startOfContent text)) b.span.start.toNat := by
  have hstop : startOfContent text + (text.drop (startOfContent text)).length ≤ text.length := by
    have := startOfContent_le text
    rw [List.length_drop]
    omega
  exact numberBeats_bar text (.ofText text) (marksFrom_runs text _) hstop
    (barLinesBefore_placeAt? text _).symm 0 hb

/-- The bar lines of a header, a chord, a string and a comment do not count, those of an empty bar
do. -/
theorem BeatMap.ofText_bar_three :
    let text := "|. 1 || (2 \"|)\" |) ) 3 /* | */ | 4".toList
    let b : Beat := ⟨⟨3, 0⟩, ⟨33, 34, 0, 33, 0, 34⟩⟩
    b ∈ (BeatMap.ofText text).beats ∧
      3 = (barLinesBefore (placeAt? text (startOfContent text)) 33 : Int) := by
  intro text b
  have hb : b ∈ (BeatMap.ofText text).beats := by decide +kernel
  exact ⟨hb, BeatMap.ofText_bar text hb⟩

end Tablature
