import Mathlib.Data.List.Forall2
import Tablature.Proofs.Highlight.Remap

/-!
# The characters that survive an edit

A character survives an edit when no change replaces it. The changes in front of
it move it to its new index. A decoration that is carried through an edit covers
the same survivors afterwards as before, and every decoration with a survivor can
be carried.
-/

namespace Tablature

namespace ChangeSet

def Survives (cs : ChangeSet) (k : Int) : Prop :=
  0 ≤ k ∧ k < cs.oldLength ∧ ∀ c ∈ cs.changes, ¬ (c.start ≤ k ∧ k < c.stop)

def newIndex (cs : ChangeSet) (k : Int) : Int :=
  k + totalDelta (cs.changes.filter fun c => c.stop ≤ k)

end ChangeSet

/-! ## Survivors against positions -/

section
variable {oldLength lo k pos : Int} {cs : List TextChange}

theorem Fits.none_in_front (h : Fits oldLength lo cs) (hk : k < lo) :
    cs.filter (fun c => c.stop ≤ k) = [] := by
  refine List.filter_eq_nil_iff.mpr fun c hc => ?_
  have := h.of_mem hc
  simp only [decide_eq_true_eq]
  omega

/-- The first change is in front of a survivor or behind it. -/
theorem survives_cons {c : TextChange}
    (hk : ∀ d ∈ c :: cs, ¬ (d.start ≤ k ∧ k < d.stop)) :
    (k < c.start ∨ c.stop ≤ k) ∧ ∀ d ∈ cs, ¬ (d.start ≤ k ∧ k < d.stop) := by
  refine ⟨?_, fun d hd => hk d (List.mem_cons_of_mem _ hd)⟩
  have := hk c (List.mem_cons_self ..)
  omega

theorem Fits.mapThrough_le_survivor (h : Fits oldLength lo cs)
    (hk : ∀ c ∈ cs, ¬ (c.start ≤ k ∧ k < c.stop)) (hp : pos ≤ k) (side : Side)
    (shift : Int) :
    mapThrough pos side shift cs ≤ k + shift + totalDelta (cs.filter fun c => c.stop ≤ k) := by
  induction cs generalizing lo pos shift with
  | nil =>
    rw [mapThrough, List.filter_nil, totalDelta]
    omega
  | cons c cs ih =>
    have hc := h.from_first
    obtain ⟨h₁, h₂, h₃, h₄, h₅⟩ := h
    obtain ⟨hkc, hks⟩ := survives_cons hk
    rcases hkc with hkc | hkc
    · rw [hc.none_in_front hkc, mapThrough_before (by omega), totalDelta]
      omega
    · rw [List.filter_cons_of_pos (by simpa using hkc), totalDelta]
      by_cases hpos : c.stop < pos
      · have := ih h₅ hks hp (shift + c.delta)
        rw [mapThrough_behind h₂ hpos]
        omega
      · -- the position comes out no later than the end of the first change would behind it
        have hend := ih h₅ hks hkc (shift + c.delta)
        have hlow := h₅.le_mapThrough (Int.le_refl _) side (shift + c.delta)
        have hbound : mapThrough pos side shift (c :: cs) ≤ c.stop + (shift + c.delta) := by
          by_cases hb : pos < c.start
          · rw [mapThrough_before hb, TextChange.delta]
            omega
          · exact mapThrough_touched_le (by omega) (by omega) h₄ ..
        omega

theorem Fits.survivor_lt_mapThrough (h : Fits oldLength lo cs)
    (hk : ∀ c ∈ cs, ¬ (c.start ≤ k ∧ k < c.stop)) (hp : k < pos) (side : Side)
    (shift : Int) :
    k + shift + totalDelta (cs.filter fun c => c.stop ≤ k) < mapThrough pos side shift cs := by
  induction cs generalizing lo shift with
  | nil =>
    rw [mapThrough, List.filter_nil, totalDelta]
    omega
  | cons c cs ih =>
    have hc := h.from_first
    obtain ⟨h₁, h₂, h₃, h₄, h₅⟩ := h
    obtain ⟨hkc, hks⟩ := survives_cons hk
    rcases hkc with hkc | hkc
    · rw [hc.none_in_front hkc, totalDelta]
      by_cases hb : pos < c.start
      · rw [mapThrough_before hb]
        omega
      · have := hc.le_mapThrough (show c.start ≤ pos by omega) side shift
        omega
    · have := ih h₅ hks (shift + c.delta)
      rw [List.filter_cons_of_pos (by simpa using hkc), totalDelta,
        mapThrough_behind h₂ (by omega)]
      omega

end

/-- On either side a position keeps its order to every survivor. -/
theorem ChangeSet.mapPos_le_newIndex_iff (cs : ChangeSet) {k : Int} (hk : cs.Survives k)
    (pos : Int) (side : Side) : cs.mapPos pos side ≤ cs.newIndex k ↔ pos ≤ k := by
  constructor
  · intro h
    refine Int.not_lt.mp fun hlt => ?_
    have := cs.fits.survivor_lt_mapThrough hk.2.2 hlt side 0
    rw [Int.add_zero] at this
    exact absurd h (Int.not_le.mpr this)
  · intro h
    have := cs.fits.mapThrough_le_survivor hk.2.2 h side 0
    rwa [Int.add_zero] at this

namespace DecorationSet

theorem map_survivors (s : DecorationSet) (cs : ChangeSet) :
    (cs.oldLength = s.docLength →
      (∀ d ∈ s.decorations, ∃ k, cs.Survives k ∧ d.start ≤ k ∧ k < d.stop) →
      ∃ s', s.map cs = .ok s') ∧
    ∀ s', s.map cs = .ok s' →
      List.Forall₂ (fun d d' => ∀ k, cs.Survives k →
        (d.start ≤ k ∧ k < d.stop ↔ d'.start ≤ cs.newIndex k ∧ cs.newIndex k < d'.stop))
        s.decorations s'.decorations := by
  have covers : ∀ d k, cs.Survives k → (d.start ≤ k ∧ k < d.stop ↔
      (image cs d).start ≤ cs.newIndex k ∧ cs.newIndex k < (image cs d).stop) := by
    intro d k hk
    have hstart := cs.mapPos_le_newIndex_iff hk d.start .after
    have hstop := cs.mapPos_le_newIndex_iff hk d.stop .before
    show _ ↔ cs.mapPos d.start .after ≤ _ ∧ _ < cs.mapPos d.stop .before
    omega
  constructor
  · intro hlen h
    refine ⟨_, map_eq_ok_iff.mpr ⟨rfl, .inr hlen, fun d hd => ?_⟩⟩
    obtain ⟨k, hk, hd⟩ := h d hd
    have := (covers d k hk).mp hd
    omega
  · intro s' h
    obtain ⟨rfl, -, -⟩ := map_eq_ok_iff.mp h
    rw [List.forall₂_map_right_iff, List.forall₂_same]
    exact fun d _ k hk => covers d k hk

/-- Text goes in at the left edge of the first decoration, a change replaces the place where the two
meet, and text goes in at the right edge of the second. -/
theorem map_survivors_atEdges :
    let cs : ChangeSet := ⟨[⟨2, 2, 2⟩, ⟨4, 6, 1⟩, ⟨8, 8, 3⟩], 10, firstFault?_eq_none_iff.mp rfl⟩
    let s : DecorationSet := ⟨[⟨2, 5, .playback⟩, ⟨5, 8, .playback⟩], 10⟩
    let s' : DecorationSet := ⟨[⟨4, 6, .playback⟩, ⟨7, 9, .playback⟩], 14⟩
    (∃ t, s.map cs = .ok t) ∧ s.map cs = .ok s' ∧
      List.Forall₂ (fun d d' => ∀ k, cs.Survives k →
        (d.start ≤ k ∧ k < d.stop ↔ d'.start ≤ cs.newIndex k ∧ cs.newIndex k < d'.stop))
        s.decorations s'.decorations := by
  intro cs s s'
  have hsurv : ∀ d ∈ s.decorations, ∃ k, cs.Survives k ∧ d.start ≤ k ∧ k < d.stop := by
    intro d hd
    rcases List.mem_cons.mp hd with rfl | hd
    · exact ⟨2, ⟨by decide, by decide, by decide⟩, by decide⟩
    · rcases List.mem_singleton.mp hd with rfl
      exact ⟨7, ⟨by decide, by decide, by decide⟩, by decide⟩
  have hmap : s.map cs = .ok s' := by rfl
  exact ⟨(map_survivors s cs).1 rfl hsurv, hmap, (map_survivors s cs).2 s' hmap⟩

end DecorationSet

end Tablature
