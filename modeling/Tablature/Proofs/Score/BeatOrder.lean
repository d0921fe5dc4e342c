import Tablature.Proofs.Notation.TokenOrder
import Tablature.Proofs.Text.LinePlace
import Tablature.Score.BeatMap

/-!
# The order of beats

The beats of a text stand in order in the score and in the text. In the text
their spans are apart and lie between the start of the notation and the end. In
the score the bars rise, and within a bar the beats count from zero.
-/

namespace Tablature

/-! ## What a glued duration leaves of a token -/

theorem length_slice {text : List Char} (start : Nat) {stop : Nat} (h : stop ≤ text.length) :
    (slice text start stop).length = stop - start := by
  rw [slice, List.length_take, List.length_drop]
  omega

theorem add_modifierLength?_lt {text : List Char} {start stop n : Nat} (hlt : start < stop)
    (hle : stop ≤ text.length) (h : modifierLength? (slice text start stop) = some n) :
    start + n < stop := by
  have hlen := length_slice start hle
  have hne : slice text start stop ≠ [] := by
    intro e
    rw [e, List.length_nil] at hlen
    omega
  have := modifierLength?_lt h hne
  omega

/-! ## Places in the text -/

section
variable (text : List Char) (ix : LineIndex)

theorem mem_numberBeats {lo hi : Nat} {ms : List Mark} (h : Laid lo ms hi) (hle : hi ≤ text.length)
    (bar beat : Nat) {b : Beat} (hb : b ∈ numberBeats text ix bar beat ms) :
    ∃ start stop : Nat, b.span = ix.span start stop ∧ lo ≤ start ∧ start < stop ∧ stop ≤ hi := by
  fun_induction numberBeats text ix bar beat ms generalizing lo with
  | case1 => cases hb
  | case2 beat bar ms ih => exact ih h hb
  | case3 bar beat start stop ms hn ih =>
    obtain ⟨h₁, h₂, h₃⟩ := h
    obtain ⟨i, j, hs, hi, hij, hj⟩ := ih h₃ hb
    exact ⟨i, j, hs, by omega, hij, hj⟩
  | case4 bar beat start stop ms n hn ih =>
    obtain ⟨h₁, h₂, h₃⟩ := h
    rcases List.mem_cons.mp hb with rfl | hb
    · have hstop := h₃.le
      exact ⟨start + n, stop, rfl, by omega, add_modifierLength?_lt h₂ (by omega) hn, hstop⟩
    · obtain ⟨i, j, hs, hi, hij, hj⟩ := ih h₃ hb
      exact ⟨i, j, hs, by omega, hij, hj⟩

theorem numberBeats_apart {lo hi : Nat} {ms : List Mark} (h : Laid lo ms hi)
    (hle : hi ≤ text.length) (bar beat : Nat) :
    (numberBeats text ix bar beat ms).Pairwise fun a b => a.span.stop ≤ b.span.start := by
  fun_induction numberBeats text ix bar beat ms generalizing lo with
  | case1 => exact .nil
  | case2 beat bar ms ih => exact ih h
  | case3 bar beat start stop ms hn ih => exact ih h.2.2
  | case4 bar beat start stop ms n hn ih =>
    refine .cons (fun b hb => ?_) (ih h.2.2)
    obtain ⟨i, j, hs, hi, _⟩ := mem_numberBeats text ix h.2.2 hle _ _ hb
    rw [hs]
    exact Int.ofNat_le.mpr hi

/-! ## Places in the score -/

def ScorePosition.Precedes (p q : ScorePosition) : Prop :=
  p.bar < q.bar ∨ p.bar = q.bar ∧ p.beat < q.beat

theorem ScorePosition.Precedes.bar_le {p q : ScorePosition} (h : p.Precedes q) : p.bar ≤ q.bar := by
  rcases h with h | h <;> omega

theorem ScorePosition.Precedes.ne {p q : ScorePosition} (h : p.Precedes q) : p ≠ q := by
  rintro rfl
  rcases h with h | h <;> omega

/-- Numbering starts at the given place: a beat is in a later bar, or in this one and not before
the given number. -/
theorem numberBeats_from (bar beat : Nat) (ms : List Mark) {b : Beat}
    (hb : b ∈ numberBeats text ix bar beat ms) :
    bar < b.position.bar ∨ bar = b.position.bar ∧ beat ≤ b.position.beat := by
  fun_induction numberBeats text ix bar beat ms with
  | case1 => cases hb
  | case2 beat bar ms ih =>
    have := ih hb
    omega
  | case3 bar beat start stop ms hn ih => exact ih hb
  | case4 bar beat start stop ms n hn ih =>
    rcases List.mem_cons.mp hb with rfl | hb
    · exact .inr ⟨rfl, Int.le_refl _⟩
    · have := ih hb
      omega

theorem numberBeats_rise (bar beat : Nat) (ms : List Mark) :
    (numberBeats text ix bar beat ms).Pairwise fun a b => a.position.Precedes b.position := by
  fun_induction numberBeats text ix bar beat ms with
  | case1 => exact .nil
  | case2 beat bar ms ih => exact ih
  | case3 bar beat start stop ms hn ih => exact ih
  | case4 bar beat start stop ms n hn ih =>
    refine .cons (fun b hb => ?_) ih
    have := numberBeats_from text ix bar (beat + 1) ms hb
    unfold ScorePosition.Precedes
    dsimp only
    omega

theorem numberBeats_inBar_eq_nil (bar beat : Nat) (ms : List Mark) {q : Int} (hq : q < bar) :
    (numberBeats text ix bar beat ms).filter (·.position.bar == q) = [] := by
  refine List.filter_eq_nil_iff.mpr fun b hb => ?_
  have := numberBeats_from text ix bar beat ms hb
  rw [beq_iff_eq]
  omega

/-- The beats of the first bar go on from the given number, those of a later bar begin at zero. -/
theorem numberBeats_numbered (bar beat : Nat) (ms : List Mark) {q : Int} (hq : bar ≤ q) :
    ((numberBeats text ix bar beat ms).filter (·.position.bar == q)).map (·.position.beat) =
      (List.range' (if q = bar then beat else 0)
        ((numberBeats text ix bar beat ms).filter (·.position.bar == q)).length).map Int.ofNat := by
  fun_induction numberBeats text ix bar beat ms with
  | case1 => rfl
  | case2 beat bar ms ih =>
    by_cases hbar : q = bar
    · rw [numberBeats_inBar_eq_nil text ix (bar + 1) 0 ms (by omega)]; rfl
    · have := ih (by omega)
      rw [ite_self] at this
      rwa [if_neg hbar]
  | case3 bar beat start stop ms hn ih => exact ih hq
  | case4 bar beat start stop ms n hn ih =>
    have := ih hq
    by_cases hbar : q = bar
    · rw [if_pos hbar] at this ⊢
      rw [List.filter_cons_of_pos (by simp [hbar]), List.map_cons, List.length_cons,
        List.range'_succ, List.map_cons, this]
      rfl
    · rw [if_neg hbar] at this ⊢
      rwa [List.filter_cons_of_neg (by simpa using Ne.symm hbar)]

end

/-! ## The beats of a text -/

structure BeatMap.Ordered (m : BeatMap) (text : List Char) : Prop where
  inside : ∀ b ∈ m.beats,
    m.contentStart ≤ b.span.start ∧ b.span.start < b.span.stop ∧ b.span.stop ≤ text.length
  apart : m.beats.Pairwise fun a b => a.span.stop ≤ b.span.start
  barsRise : m.beats.Pairwise fun a b => a.position.bar ≤ b.position.bar
  numbered : ∀ bar : Int, let inBar := m.beats.filter fun b => b.position.bar = bar
    inBar.map (·.position.beat) = (List.range inBar.length).map Int.ofNat
  distinct : (m.beats.map Beat.position).Nodup
  startsAt : ∀ b ∈ m.beats, b.span.startLine = lineOf text b.span.start.toNat ∧
    b.span.startColumn = columnOf text b.span.start.toNat
  endsAt : ∀ b ∈ m.beats, b.span.endLine = lineOf text b.span.stop.toNat ∧
    b.span.endColumn = columnOf text b.span.stop.toNat

namespace BeatMap

variable (text : List Char)

theorem ofText_span {b : Beat} (hb : b ∈ (ofText text).beats) :
    ∃ start stop : Nat, b.span = (LineIndex.ofText text).span start stop ∧
      startOfContent text ≤ start ∧ start < stop ∧ stop ≤ text.length :=
  mem_numberBeats text _ (marksFrom_laid (startOfContent_le text)) (Nat.le_refl _) 0 0 hb

theorem ofText_inside {b : Beat} (hb : b ∈ (ofText text).beats) :
    (ofText text).contentStart ≤ b.span.start ∧ b.span.start < b.span.stop ∧
      b.span.stop ≤ text.length := by
  obtain ⟨start, stop, hs, h₁, h₂, h₃⟩ := ofText_span text hb
  rw [hs]
  exact ⟨Int.ofNat_le.mpr h₁, Int.ofNat_lt.mpr h₂, Int.ofNat_le.mpr h₃⟩

theorem ofText_start_lt_stop {b : Beat} (hb : b ∈ (ofText text).beats) :
    b.span.start < b.span.stop := (ofText_inside text hb).2.1

theorem ofText_apart : (ofText text).beats.Pairwise fun a b => a.span.stop ≤ b.span.start :=
  numberBeats_apart text _ (marksFrom_laid (startOfContent_le text)) (Nat.le_refl _) 0 0

theorem ofText_rise : (ofText text).beats.Pairwise fun a b => a.position.Precedes b.position :=
  numberBeats_rise text _ 0 0 _

theorem ofText_numbered (bar : Int) :
    ((ofText text).beatsInBar bar).map (·.position.beat) =
      (List.range ((ofText text).beatsInBar bar).length).map Int.ofNat := by
  rcases Int.lt_or_le bar (0 : Nat) with h | h
  · rw [show (ofText text).beatsInBar bar = [] from numberBeats_inBar_eq_nil text _ 0 0 _ h]
    rfl
  · have := numberBeats_numbered text (.ofText text) 0 0 (marksFrom text (startOfContent text)) h
    rwa [ite_self, ← List.range_eq_range'] at this

end BeatMap

theorem LineIndex.span_ofText {text : List Char} {start stop : Nat} (hlt : start < stop)
    (hle : stop ≤ text.length) :
    (LineIndex.ofText text).span start stop =
      ⟨start, stop, lineOf text start, columnOf text start, lineOf text stop, columnOf text stop⟩ := by
  have hstart := offsetToLineCol_ofText text start
  have hstop := offsetToLineCol_ofText text stop
  rw [clampTo_natCast (by omega)] at hstart
  rw [clampTo_natCast hle] at hstop
  simp only [LineIndex.span, hstart, hstop]

theorem BeatMap.ofText_ordered (text : List Char) : (BeatMap.ofText text).Ordered text where
  inside := by
    intro b hb
    obtain ⟨start, stop, hs, h₁, h₂, h₃⟩ := ofText_span text hb
    rw [hs]
    exact ⟨Int.ofNat_le.mpr h₁, Int.ofNat_lt.mpr h₂, Int.ofNat_le.mpr h₃⟩
  apart := ofText_apart text
  barsRise := (ofText_rise text).imp fun h => h.bar_le
  numbered := ofText_numbered text
  distinct := List.pairwise_map.mpr ((ofText_rise text).imp fun h => h.ne)
  startsAt := by
    intro b hb
    obtain ⟨start, stop, hs, _, h₂, h₃⟩ := ofText_span text hb
    rw [hs, LineIndex.span_ofText h₂ h₃]
    exact ⟨rfl, rfl⟩
  endsAt := by
    intro b hb
    obtain ⟨start, stop, hs, _, h₂, h₃⟩ := ofText_span text hb
    rw [hs, LineIndex.span_ofText h₂ h₃]
    exact ⟨rfl, rfl⟩

end Tablature
