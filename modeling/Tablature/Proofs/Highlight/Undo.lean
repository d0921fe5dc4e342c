import Tablature.Proofs.Highlight.Survivors

/-!
# Typing and undoing

An edit that only inserts is undone by removing each inserted text at its new
place. The insertions take every position to an edge of a removal or clear of
all of them, so the removals take it back, and a decoration set that goes
through both edits comes out as it was.
-/

namespace Tablature

def ChangeSet.OnlyInserts (cs : ChangeSet) : Prop := ∀ c ∈ cs.changes, c.start = c.stop

/-- The removals of what insertions put in. `shift` is how much the insertions in front have put
in. -/
def removals : (shift : Int) → List TextChange → List TextChange
  | _, [] => []
  | shift, c :: cs =>
    ⟨c.start + shift, c.start + shift + c.inserted, 0⟩ :: removals (shift + c.inserted) cs

theorem TextChange.delta_insertion {c : TextChange} (h : c.start = c.stop) :
    c.delta = c.inserted := by
  rw [delta]
  omega

theorem TextChange.delta_removal (start removed : Int) :
    delta ⟨start, start + removed, 0⟩ = -removed := by
  show 0 - (start + removed - start) = -removed
  omega

/-- A position that a removal touches goes to where the removed text began. -/
theorem mapThrough_removal {pos start removed : Int} (h₁ : start ≤ pos) (h₂ : pos ≤ start + removed)
    (side : Side) (shift : Int) (cs : List TextChange) :
    mapThrough pos side shift (⟨start, start + removed, 0⟩ :: cs) = start + shift := by
  have hpast : side.past 0 = 0 := by cases side <;> rfl
  rw [mapThrough_touched h₁ h₂]
  dsimp only
  rw [hpast, ite_self, ite_self, Int.add_zero]

section
variable {oldLength lo : Int} {cs : List TextChange}

theorem totalDelta_removals (hins : ∀ c ∈ cs, c.start = c.stop) (shift : Int) :
    totalDelta (removals shift cs) = -totalDelta cs := by
  induction cs generalizing shift with
  | nil => rfl
  | cons c cs ih =>
    obtain ⟨hc, hcs⟩ := List.forall_mem_cons.mp hins
    rw [removals, totalDelta, totalDelta, ih hcs, TextChange.delta_insertion hc,
      TextChange.delta_removal]
    omega

theorem Fits.removals_fits (h : Fits oldLength lo cs) (hins : ∀ c ∈ cs, c.start = c.stop)
    (shift : Int) : Fits (oldLength + (shift + totalDelta cs)) (lo + shift) (removals shift cs) := by
  induction cs generalizing lo shift with
  | nil => trivial
  | cons c cs ih =>
    obtain ⟨hc, hcs⟩ := List.forall_mem_cons.mp hins
    obtain ⟨h₁, h₂, h₃, h₄, h₅⟩ := h
    have hroom : c.stop ≤ oldLength + totalDelta cs := h₅.le_length_add_totalDelta h₃
    have hrest := ih h₅ hcs (shift + c.inserted)
    have hstop : c.stop + (shift + c.inserted) = c.start + shift + c.inserted := by omega
    rw [hstop, Int.add_assoc shift] at hrest
    rw [totalDelta, TextChange.delta_insertion hc]
    refine ⟨Int.add_le_add_right h₁ shift, ?_, ?_, Int.le_refl 0, hrest⟩
    · exact Int.le_add_of_nonneg_right h₄
    · show c.start + shift + c.inserted ≤ _
      omega

/-- Insertions move a position to the back, if at all. -/
theorem Fits.add_le_mapThrough (h : Fits oldLength lo cs) (hins : ∀ c ∈ cs, c.start = c.stop)
    (pos : Int) (side : Side) (shift : Int) : pos + shift ≤ mapThrough pos side shift cs := by
  induction cs generalizing lo shift with
  | nil => exact Int.le_refl _
  | cons c cs ih =>
    obtain ⟨hc, hcs⟩ := List.forall_mem_cons.mp hins
    obtain ⟨h₁, h₂, h₃, h₄, h₅⟩ := h
    by_cases hbefore : pos < c.start
    · exact Int.le_of_eq (mapThrough_before hbefore).symm
    · by_cases hbehind : c.stop < pos
      · have hrest := ih h₅ hcs (shift + c.delta)
        rw [mapThrough_behind h₂ hbehind]
        rw [TextChange.delta_insertion hc] at hrest ⊢
        omega
      · have htouched := mapThrough_touched_ge (Int.not_lt.mp hbefore) (Int.not_lt.mp hbehind) h₄
          side shift cs
        omega

/-- What insertions make of a position, the removals that undo them take back. -/
theorem Fits.mapThrough_removals (h : Fits oldLength lo cs) (hins : ∀ c ∈ cs, c.start = c.stop)
    (pos : Int) (side side' : Side) (shift : Int) :
    mapThrough (mapThrough pos side shift cs) side' (-shift) (removals shift cs) = pos := by
  induction cs generalizing lo shift with
  | nil =>
    rw [mapThrough, removals, mapThrough]
    omega
  | cons c cs ih =>
    obtain ⟨hc, hcs⟩ := List.forall_mem_cons.mp hins
    obtain ⟨h₁, h₂, h₃, h₄, h₅⟩ := h
    rw [removals]
    by_cases hbefore : pos < c.start
    · have hstart : pos + shift < c.start + shift := Int.add_lt_add_right hbefore shift
      rw [mapThrough_before hbefore, mapThrough_before hstart]
      omega
    · by_cases hbehind : c.stop < pos
      · have hfar := h₅.add_le_mapThrough hcs pos side (shift + c.inserted)
        have hclear : c.start + shift + c.inserted <
            mapThrough pos side (shift + c.inserted) cs := by omega
        rw [mapThrough_behind h₂ hbehind, TextChange.delta_insertion hc,
          mapThrough_behind (Int.le_add_of_nonneg_right h₄) hclear, TextChange.delta_removal,
          ← Int.neg_add]
        exact ih h₅ hcs (shift + c.inserted)
      · -- the position is that of the insertion, and comes out at an edge of the removal
        have hstart := Int.not_lt.mp hbefore
        have hstop := Int.not_lt.mp hbehind
        have hge := mapThrough_touched_ge hstart hstop h₄ side shift cs
        have hle := mapThrough_touched_le hstart hstop h₄ side shift cs
        rw [TextChange.delta_insertion hc] at hle
        rw [mapThrough_removal hge (by omega)]
        omega

end

namespace ChangeSet

theorem ofOrdered_of_fits {oldLength : Int} {changes : List TextChange}
    (h : Fits oldLength 0 changes) :
    ofOrdered oldLength changes = .ok ⟨changes, oldLength, h⟩ := by
  unfold ofOrdered
  split
  · rfl
  · rename_i e he
    rw [firstFault?_eq_none_iff.mpr h] at he
    cases he

variable {cs : ChangeSet}

theorem OnlyInserts.survives (h : cs.OnlyInserts) {k : Int} (h₁ : 0 ≤ k) (h₂ : k < cs.oldLength) :
    cs.Survives k := by
  refine ⟨h₁, h₂, fun c hc => ?_⟩
  have := h c hc
  omega

def undo (cs : ChangeSet) (h : cs.OnlyInserts) : ChangeSet where
  changes := removals 0 cs.changes
  oldLength := cs.newLength
  fits := by
    have hfits := cs.fits.removals_fits h 0
    rwa [Int.zero_add, Int.add_zero] at hfits

theorem newLength_undo (h : cs.OnlyInserts) : (cs.undo h).newLength = cs.oldLength := by
  show cs.oldLength + totalDelta cs.changes + totalDelta (removals 0 cs.changes) = cs.oldLength
  rw [totalDelta_removals h]
  omega

theorem mapPos_undo (h : cs.OnlyInserts) (pos : Int) (side side' : Side) :
    (cs.undo h).mapPos (cs.mapPos pos side) side' = pos :=
  cs.fits.mapThrough_removals h pos side side' 0

end ChangeSet

namespace DecorationSet

section
variable {cs : ChangeSet} (h : cs.OnlyInserts)
include h

/-- Insertions leave something of every decoration. -/
theorem image_nonempty {d : Decoration} (h₁ : 0 ≤ d.start) (h₂ : d.start < d.stop)
    (h₃ : d.stop ≤ cs.oldLength) : (image cs d).start < (image cs d).stop := by
  have hsurvives : cs.Survives d.start := h.survives h₁ (Int.lt_of_lt_of_le h₂ h₃)
  have hstart : cs.mapPos d.start .after ≤ cs.newIndex d.start :=
    (cs.mapPos_le_newIndex_iff hsurvives d.start .after).mpr (Int.le_refl _)
  have hstop : cs.newIndex d.start < cs.mapPos d.stop .before := by
    rwa [← Int.not_le, cs.mapPos_le_newIndex_iff hsurvives, Int.not_le]
  exact Int.lt_of_le_of_lt hstart hstop

theorem image_undo (d : Decoration) : image (cs.undo h) (image cs d) = d := by
  unfold image
  rw [ChangeSet.mapPos_undo, ChangeSet.mapPos_undo]

end

/-- The edit that removes what was typed is well formed, and it takes every decoration set of the
text back to what it was. -/
theorem map_undo {cs : ChangeSet} (h : cs.OnlyInserts) :
    ∃ undo, ChangeSet.ofOrdered cs.newLength (removals 0 cs.changes) = .ok undo ∧
      ∀ s : DecorationSet, s.docLength = cs.oldLength →
        (∀ d ∈ s.decorations, 0 ≤ d.start ∧ d.start < d.stop ∧ d.stop ≤ s.docLength) →
        ∃ s', s.map cs = .ok s' ∧ s'.map undo = .ok s := by
  refine ⟨cs.undo h, ChangeSet.ofOrdered_of_fits _, fun s hlen hin => ?_⟩
  let s' : DecorationSet := ⟨s.decorations.map (image cs), cs.newLength⟩
  have hmap : s.map cs = .ok s' := by
    refine map_eq_ok_iff.mpr ⟨rfl, .inr hlen.symm, fun d hd => ?_⟩
    obtain ⟨h₁, h₂, h₃⟩ := hin d hd
    exact image_nonempty h h₁ h₂ (hlen ▸ h₃)
  have hback : s'.map (cs.undo h) = .ok s := by
    refine map_eq_ok_iff.mpr ⟨?_, .inr rfl, fun d' hd' => ?_⟩
    · have hsame : image (cs.undo h) ∘ image cs = id := funext (image_undo h)
      rw [ChangeSet.newLength_undo, ← hlen, List.map_map, hsame, List.map_id]
    · obtain ⟨d, hd, rfl⟩ := List.mem_map.mp hd'
      rw [image_undo h]
      exact (hin d hd).2.1
  exact ⟨s', hmap, hback⟩

/-- Text goes in twice at the left edge of the first decoration, behind a lone nothing where the
decorations meet, and at the right edge of the second one. -/
theorem map_undo_atEdges :
    let cs : ChangeSet :=
      ⟨[⟨2, 2, 1⟩, ⟨2, 2, 3⟩, ⟨5, 5, 0⟩, ⟨5, 5, 2⟩, ⟨8, 8, 4⟩], 10, firstFault?_eq_none_iff.mp rfl⟩
    let s : DecorationSet := ⟨[⟨2, 5, .playback⟩, ⟨5, 8, .playback⟩], 10⟩
    let s' : DecorationSet := ⟨[⟨3, 9, .playback⟩, ⟨9, 14, .playback⟩], 20⟩
    cs.OnlyInserts ∧ s.map cs = .ok s' ∧
      removals 0 cs.changes = [⟨2, 3, 0⟩, ⟨3, 6, 0⟩, ⟨9, 9, 0⟩, ⟨9, 11, 0⟩, ⟨14, 18, 0⟩] ∧
      ∃ undo, ChangeSet.ofOrdered cs.newLength (removals 0 cs.changes) = .ok undo ∧
        s'.map undo = .ok s := by
  intro cs s s'
  have hins : ∀ c ∈ cs.changes, c.start = c.stop := by decide
  have hmap : s.map cs = .ok s' := rfl
  obtain ⟨undo, hundo, hback⟩ := map_undo hins
  obtain ⟨t, ht, hback⟩ := hback s rfl (by decide)
  cases hmap.symm.trans ht
  exact ⟨hins, hmap, rfl, undo, hundo, hback⟩

end DecorationSet

end Tablature
