import Tablature.Proofs.Highlight.Survivors

/-!
# Survivors behind several insertions

The place after an insertion is the new index of the character behind it, but
only the first change that ends at the character counts. All later ones that end
there are insertions, and their text comes out behind the place.
-/

namespace Tablature

/-- The changes that end at a position: at most one replacement, then insertions. -/
def ChangeSet.endingAt (cs : ChangeSet) (k : Int) : List TextChange :=
  cs.changes.filter fun c => c.stop = k

section
variable {oldLength lo k : Int} {cs : List TextChange}

theorem Fits.filter_stop_le (h : Fits oldLength k cs) :
    cs.filter (fun c => c.stop ≤ k) = cs.filter (fun c => c.stop = k) := by
  refine List.filter_congr fun c hc => ?_
  have := h.of_mem hc
  rw [decide_eq_decide]
  omega

theorem Fits.mapThrough_after_survivor (h : Fits oldLength lo cs)
    (hk : ∀ c ∈ cs, ¬ (c.start ≤ k ∧ k < c.stop)) (shift : Int) :
    mapThrough k .after shift cs + totalDelta (cs.filter fun c => c.stop = k).tail =
      k + shift + totalDelta (cs.filter fun c => c.stop ≤ k) := by
  induction cs generalizing lo shift with
  | nil => simp [mapThrough, totalDelta]
  | cons c cs ih =>
    have hc := h.from_first
    obtain ⟨h₁, h₂, h₃, h₄, h₅⟩ := h
    obtain ⟨hkc, hks⟩ := survives_cons hk
    rcases hkc with hkc | hkc
    · have hnone : (c :: cs).filter (fun c => c.stop = k) = [] := by
        refine List.filter_eq_nil_iff.mpr fun d hd => ?_
        have := hc.of_mem hd
        simp only [decide_eq_true_eq]
        omega
      rw [mapThrough_before hkc, hnone, hc.none_in_front hkc]
      simp [totalDelta]
    · have hle : totalDelta ((c :: cs).filter fun c => c.stop ≤ k) =
          c.delta + totalDelta (cs.filter fun c => c.stop ≤ k) := by
        rw [List.filter_cons_of_pos (by simpa using hkc), totalDelta]
      rcases Int.lt_or_eq_of_le hkc with hlt | heq
      · have := ih h₅ hks (shift + c.delta)
        rw [mapThrough_behind h₂ hlt, List.filter_cons_of_neg (by simpa using Int.ne_of_lt hlt)]
        omega
      · -- the walk ends here, whatever else ends at the position
        subst heq
        have hplace : mapThrough c.stop .after shift (c :: cs) = c.stop + shift + c.delta := by
          rw [mapThrough_touched h₂ (Int.le_refl _), TextChange.delta]
          simp only [Side.past]
          split
          · omega
          · split <;> omega
        rw [hplace, List.filter_cons_of_pos (by simp), List.tail_cons, ← h₅.filter_stop_le]
        omega

theorem Fits.insertion_of_mem_tail (h : Fits oldLength lo cs) {c : TextChange}
    (hc : c ∈ (cs.filter fun c => c.stop = k).tail) : c.start = c.stop ∧ 0 ≤ c.inserted := by
  induction cs generalizing lo with
  | nil => cases hc
  | cons d cs ih =>
    obtain ⟨h₁, h₂, h₃, h₄, h₅⟩ := h
    by_cases hd : d.stop = k
    · rw [List.filter_cons_of_pos (by simpa using hd), List.tail_cons] at hc
      obtain ⟨hmem, hstop⟩ := List.mem_filter.mp hc
      have := h₅.of_mem hmem
      simp only [decide_eq_true_eq] at hstop
      omega
    · rw [List.filter_cons_of_neg (by simpa using hd)] at hc
      exact ih h₅ hc

end

theorem totalDelta_of_insertions {cs : List TextChange}
    (h : ∀ c ∈ cs, c.start = c.stop ∧ 0 ≤ c.inserted) :
    0 ≤ totalDelta cs ∧ (totalDelta cs = 0 ↔ ∀ c ∈ cs, c.inserted = 0) := by
  induction cs with
  | nil => simp [totalDelta]
  | cons c cs ih =>
    obtain ⟨hc, hcs⟩ := List.forall_mem_cons.mp h
    obtain ⟨hpos, hzero⟩ := ih hcs
    rw [List.forall_mem_cons, totalDelta, TextChange.delta, ← hzero]
    omega

namespace ChangeSet

/-- The place after the insertions at a survivor is its new index, less what all but the first change
that ends there insert. -/
theorem mapPos_after_survivor (cs : ChangeSet) {k : Int} (hk : cs.Survives k) :
    cs.mapPos k .after = cs.newIndex k - totalDelta (cs.endingAt k).tail ∧
      (cs.mapPos k .after = cs.newIndex k ↔ ∀ c ∈ (cs.endingAt k).tail, c.inserted = 0) := by
  have hplace := cs.fits.mapThrough_after_survivor hk.2.2 0
  have hinsert : ∀ c ∈ (cs.endingAt k).tail, c.start = c.stop ∧ 0 ≤ c.inserted := by
    intro c hc
    exact cs.fits.insertion_of_mem_tail hc
  have hzero := (totalDelta_of_insertions hinsert).2
  have heq : cs.mapPos k .after + totalDelta (cs.endingAt k).tail = cs.newIndex k := by
    rwa [Int.add_zero] at hplace
  refine ⟨by omega, ?_⟩
  rw [← hzero]
  omega

theorem mapPos_after_replacement :
    let cs : ChangeSet := ⟨[⟨1, 3, 1⟩, ⟨3, 3, 2⟩, ⟨5, 5, 4⟩], 6, firstFault?_eq_none_iff.mp rfl⟩
    cs.Survives 3 ∧ cs.mapPos 3 .after = cs.newIndex 3 - totalDelta [⟨3, 3, 2⟩] ∧
      (cs.mapPos 3 .after = cs.newIndex 3 ↔ ∀ c ∈ (cs.endingAt 3).tail, c.inserted = 0) := by
  intro cs
  have hk : cs.Survives 3 := ⟨by decide, by decide, by decide⟩
  exact ⟨hk, (mapPos_after_survivor cs hk).1, (mapPos_after_survivor cs hk).2⟩

/-- Two insertions in front of the only character: the place is between them. -/
theorem mapPos_after_ne_newIndex :
    ¬ ∀ (cs : ChangeSet) (k : Int), cs.Survives k → cs.mapPos k .after = cs.newIndex k := by
  intro h
  let cs : ChangeSet := ⟨[⟨0, 0, 1⟩, ⟨0, 0, 1⟩], 1, firstFault?_eq_none_iff.mp rfl⟩
  have hk : cs.Survives 0 := ⟨by decide, by decide, by decide⟩
  exact absurd (h cs 0 hk) (by decide)

end ChangeSet

end Tablature
