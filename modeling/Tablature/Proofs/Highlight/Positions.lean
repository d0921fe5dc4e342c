import Tablature.Highlight.ChangeSet

/-!
# Positions through an edit

An edit keeps the order of positions and keeps them in the text. Of the two
sides of an insertion the one in front never comes out behind the other.
-/

namespace Tablature

theorem Fits.of_mem {oldLength behind : Int} {cs : List TextChange} (h : Fits oldLength behind cs)
    {c : TextChange} (hc : c ∈ cs) :
    behind ≤ c.start ∧ c.start ≤ c.stop ∧ c.stop ≤ oldLength ∧ 0 ≤ c.inserted := by
  induction cs generalizing behind with
  | nil => cases hc
  | cons d cs ih =>
    obtain ⟨h₁, h₂, h₃, h₄, h₅⟩ := h
    rcases List.mem_cons.mp hc with rfl | hc
    · exact ⟨h₁, h₂, h₃, h₄⟩
    · have := ih h₅ hc
      omega

theorem Fits.from_first {oldLength behind : Int} {c : TextChange} {cs : List TextChange}
    (h : Fits oldLength behind (c :: cs)) : Fits oldLength c.start (c :: cs) :=
  ⟨Int.le_refl _, h.2⟩

theorem Fits.le_length_add_totalDelta {oldLength behind : Int} {cs : List TextChange}
    (h : Fits oldLength behind cs) (hb : behind ≤ oldLength) :
    behind ≤ oldLength + totalDelta cs := by
  induction cs generalizing behind with
  | nil =>
    rw [totalDelta]
    omega
  | cons c cs ih =>
    obtain ⟨h₁, h₂, h₃, h₄, h₅⟩ := h
    have := ih h₅ h₃
    rw [totalDelta, TextChange.delta]
    omega

theorem Side.past_nonneg (side : Side) {inserted : Int} (h : 0 ≤ inserted) :
    0 ≤ side.past inserted := by
  cases side with
  | before => exact Int.le_refl 0
  | after => exact h

theorem Side.past_le (side : Side) {inserted : Int} (h : 0 ≤ inserted) :
    side.past inserted ≤ inserted := by
  cases side with
  | before => exact h
  | after => exact Int.le_refl _

/-- Where a position goes that a change touches. -/
theorem mapThrough_touched {pos : Int} {c : TextChange} (h₁ : c.start ≤ pos) (h₂ : pos ≤ c.stop)
    (side : Side) (shift : Int) (cs : List TextChange) :
    mapThrough pos side shift (c :: cs) = c.start + shift +
      if c.start < c.stop ∧ pos = c.start then 0
      else if c.start < c.stop ∧ pos = c.stop then c.inserted
      else side.past c.inserted := by
  rw [mapThrough, if_neg (by omega), if_neg (by omega)]
  by_cases heq : c.start = c.stop
  · rw [if_pos heq, if_neg (by omega), if_neg (by omega)]
  · have hlt : c.start < c.stop := by omega
    rw [if_neg heq]
    by_cases hs : pos = c.start
    · rw [if_pos hs, if_pos ⟨hlt, hs⟩, Int.add_zero]
    · have hs' : ¬ (c.start < c.stop ∧ pos = c.start) := fun h => hs h.2
      rw [if_neg hs, if_neg hs']
      by_cases he : pos = c.stop
      · rw [if_pos he, if_pos ⟨hlt, he⟩]
      · rw [if_neg he, if_neg fun h => he h.2]

theorem mapThrough_touched_ge {pos : Int} {c : TextChange} (h₁ : c.start ≤ pos)
    (h₂ : pos ≤ c.stop) (h₃ : 0 ≤ c.inserted) (side : Side) (shift : Int) (cs : List TextChange) :
    c.start + shift ≤ mapThrough pos side shift (c :: cs) := by
  have := side.past_nonneg h₃
  rw [mapThrough_touched h₁ h₂]
  split
  · omega
  · split <;> omega

theorem mapThrough_touched_le {pos : Int} {c : TextChange} (h₁ : c.start ≤ pos)
    (h₂ : pos ≤ c.stop) (h₃ : 0 ≤ c.inserted) (side : Side) (shift : Int) (cs : List TextChange) :
    mapThrough pos side shift (c :: cs) ≤ c.stop + (shift + c.delta) := by
  have := side.past_le h₃
  rw [mapThrough_touched h₁ h₂, TextChange.delta]
  split
  · omega
  · split <;> omega

theorem mapThrough_before {pos shift : Int} {side : Side} {c : TextChange} {cs : List TextChange}
    (h : pos < c.start) : mapThrough pos side shift (c :: cs) = pos + shift := by
  rw [mapThrough, if_pos h]

theorem mapThrough_behind {pos shift : Int} {side : Side} {c : TextChange} {cs : List TextChange}
    (h₁ : c.start ≤ c.stop) (h₂ : c.stop < pos) :
    mapThrough pos side shift (c :: cs) = mapThrough pos side (shift + c.delta) cs := by
  rw [mapThrough, if_neg (by omega), if_pos h₂]

/-- A position behind which all changes stand never moves further to the front than the changes in
front of it moved it. -/
theorem Fits.le_mapThrough {oldLength lo pos : Int} {cs : List TextChange}
    (h : Fits oldLength lo cs) (hp : lo ≤ pos) (side : Side) (shift : Int) :
    lo + shift ≤ mapThrough pos side shift cs := by
  induction cs generalizing lo shift with
  | nil =>
    rw [mapThrough]
    omega
  | cons c cs ih =>
    obtain ⟨h₁, h₂, h₃, h₄, h₅⟩ := h
    by_cases hb : pos < c.start
    · rw [mapThrough_before hb]
      omega
    · by_cases ha : c.stop < pos
      · have := ih h₅ (by omega) (shift + c.delta)
        rw [mapThrough_behind h₂ ha]
        rw [TextChange.delta] at this ⊢
        omega
      · have := mapThrough_touched_ge (show c.start ≤ pos by omega) (by omega) h₄ side shift cs
        omega

theorem Fits.mapThrough_le {oldLength lo pos : Int} {cs : List TextChange}
    (h : Fits oldLength lo cs) (hp : pos ≤ oldLength) (side : Side) (shift : Int) :
    mapThrough pos side shift cs ≤ oldLength + (shift + totalDelta cs) := by
  induction cs generalizing lo shift with
  | nil =>
    rw [mapThrough, totalDelta]
    omega
  | cons c cs ih =>
    have hfirst := h.from_first.le_length_add_totalDelta
    obtain ⟨h₁, h₂, h₃, h₄, h₅⟩ := h
    have hrest := h₅.le_length_add_totalDelta h₃
    rw [totalDelta] at hfirst ⊢
    by_cases hb : pos < c.start
    · rw [mapThrough_before hb]
      omega
    · by_cases ha : c.stop < pos
      · have := ih h₅ (shift + c.delta)
        rw [mapThrough_behind h₂ ha]
        omega
      · have := mapThrough_touched_le (show c.start ≤ pos by omega) (by omega) h₄ side shift cs
        omega

/-- Two positions on given sides keep their order, unless the one in front goes behind the
inserted text and the other one does not. -/
theorem Fits.mapThrough_mono {oldLength lo p q : Int} {cs : List TextChange}
    (h : Fits oldLength lo cs) (hpq : p ≤ q) {s t : Side} (hst : s = .after → t = .after)
    (shift : Int) :
    mapThrough p s shift cs ≤ mapThrough q t shift cs := by
  induction cs generalizing lo shift with
  | nil =>
    rw [mapThrough, mapThrough]
    omega
  | cons c cs ih =>
    have hc := h.from_first
    obtain ⟨h₁, h₂, h₃, h₄, h₅⟩ := h
    by_cases hp : p < c.start
    · rw [mapThrough_before hp]
      by_cases hq : q < c.start
      · rw [mapThrough_before hq]
        omega
      · have := hc.le_mapThrough (show c.start ≤ q by omega) t shift
        omega
    · by_cases hp' : c.stop < p
      · rw [mapThrough_behind h₂ hp', mapThrough_behind h₂ (by omega)]
        exact ih h₅ _
      · by_cases hq : c.stop < q
        · have hle := mapThrough_touched_le (show c.start ≤ p by omega) (by omega) h₄ s shift cs
          rw [mapThrough_behind h₂ hq]
          exact Int.le_trans hle (h₅.le_mapThrough (by omega) t _)
        · -- both positions touch the same change
          have hpast : s.past c.inserted ≤ t.past c.inserted := by
            cases s with
            | before => exact t.past_nonneg h₄
            | after => exact Int.le_of_eq (by rw [hst rfl])
          have hs := s.past_le h₄
          have ht := t.past_nonneg h₄
          rw [mapThrough_touched (by omega) (by omega), mapThrough_touched (by omega) (by omega)]
          refine Int.add_le_add_left ?_ _
          split <;> split <;> (try split) <;> (try split) <;> omega

namespace ChangeSet

variable (cs : ChangeSet)

theorem mapPos_mono {p q : Int} (h : p ≤ q) {s t : Side} (hst : s = .after → t = .after) :
    cs.mapPos p s ≤ cs.mapPos q t :=
  cs.fits.mapThrough_mono h hst 0

theorem mapPos_nonneg {p : Int} (h : 0 ≤ p) (side : Side) : 0 ≤ cs.mapPos p side := by
  have := cs.fits.le_mapThrough h side 0
  rwa [Int.add_zero] at this

theorem mapPos_le {p : Int} (h : p ≤ cs.oldLength) (side : Side) :
    cs.mapPos p side ≤ cs.newLength := by
  have := cs.fits.mapThrough_le h side 0
  rwa [Int.zero_add] at this

/-- Positions of the old text keep their order on either side, and go to positions of the new text. -/
theorem mapPos_ordered {p q : Int} (hp : 0 ≤ p) (hpq : p ≤ q) (hq : q ≤ cs.oldLength) :
    (∀ bias, cs.mapPos p (.ofBias bias) ≤ cs.mapPos q (.ofBias bias)) ∧
      cs.mapPos p (.ofBias (-1)) ≤ cs.mapPos p (.ofBias 1) ∧
      ∀ bias, 0 ≤ cs.mapPos p (.ofBias bias) ∧ cs.mapPos p (.ofBias bias) ≤ cs.newLength := by
  have hp' : p ≤ cs.oldLength := Int.le_trans hpq hq
  refine ⟨fun bias => cs.mapPos_mono hpq id, ?_, fun bias => ?_⟩
  · exact cs.mapPos_mono (Int.le_refl p) nofun
  · exact ⟨cs.mapPos_nonneg hp _, cs.mapPos_le hp' _⟩

/-- Between the two positions lie a removal, an insertion that touches it and a replacement. -/
theorem mapPos_ordered_acrossChanges :
    let cs : ChangeSet := ⟨[⟨1, 4, 0⟩, ⟨4, 4, 5⟩, ⟨5, 8, 1⟩], 9, firstFault?_eq_none_iff.mp rfl⟩
    ((0 : Int) ≤ 4 ∧ (4 : Int) ≤ 8 ∧ 8 ≤ cs.oldLength) ∧
      (∀ bias, cs.mapPos 4 (.ofBias bias) ≤ cs.mapPos 8 (.ofBias bias)) ∧
      cs.mapPos 4 (.ofBias (-1)) ≤ cs.mapPos 4 (.ofBias 1) ∧
      ∀ bias, 0 ≤ cs.mapPos 4 (.ofBias bias) ∧ cs.mapPos 4 (.ofBias bias) ≤ cs.newLength := by
  intro cs
  exact ⟨by decide, cs.mapPos_ordered (by decide) (by decide) (by decide)⟩

end ChangeSet

end Tablature
