import Mathlib.Data.List.Permutation
import Tablature.Proofs.Highlight.TidyLayer

/-!
# Well-formed decoration sets

A decoration set is well formed when its decorations cover some of the text, lie
within it, and stand in the order of their starts; they may overlap. Whatever the
spans, a set is built well formed, and every edit that the set goes through and
every transaction on its layer keeps it so.
-/

namespace Tablature

namespace Decoration

def Disjoint (d e : Decoration) : Prop := d.stop ≤ e.start ∨ e.stop ≤ d.start

theorem before_iff {d e : Decoration} :
    d.before e = true ↔ d.start < e.start ∨ d.start = e.start ∧ d.stop ≤ e.stop := by
  simp [before]

theorem before_trans (d e f : Decoration) (h : d.before e = true) (h' : e.before f = true) :
    d.before f = true := by
  rw [before_iff] at h h' ⊢
  omega

theorem before_total (d e : Decoration) : (d.before e || e.before d) = true := by
  rw [Bool.or_eq_true, before_iff, before_iff]
  omega

end Decoration

namespace DecorationSet

structure WellFormed (s : DecorationSet) : Prop where
  inText : ∀ d ∈ s.decorations, 0 ≤ d.start ∧ d.start < d.stop ∧ d.stop ≤ s.docLength
  inOrder : s.decorations.Pairwise fun d e => d.start ≤ e.start

theorem empty_wellFormed : empty.WellFormed where
  inText _ hd := absurd hd List.not_mem_nil
  inOrder := .nil

theorem build_wellFormed (spans : List Span) (style : Style) (docLength : Int) :
    (build spans style docLength).WellFormed where
  inText := build_inText spans style docLength
  inOrder := by
    have hsorted := List.pairwise_mergeSort Decoration.before_trans Decoration.before_total
      (spans.filterMap (decorate? style docLength))
    refine hsorted.imp fun h => ?_
    rw [Decoration.before_iff] at h
    omega

/-! ## Through an edit -/

section
variable {s s' : DecorationSet} {cs : ChangeSet}

theorem WellFormed.map (hs : s.WellFormed) (h : s.map cs = .ok s') : s'.WellFormed where
  inText := map_inText h hs.inText
  inOrder := by
    obtain ⟨rfl, -, -⟩ := map_eq_ok_iff.mp h
    refine List.pairwise_map.mpr (hs.inOrder.imp fun hde => ?_)
    exact cs.mapPos_mono hde id

theorem map_disjoint (h : s.map cs = .ok s') (hs : s.decorations.Pairwise Decoration.Disjoint) :
    s'.decorations.Pairwise Decoration.Disjoint := by
  obtain ⟨rfl, -, -⟩ := map_eq_ok_iff.mp h
  -- An end is taken to the front side and a start to the back side of what is inserted there.
  have hkeep {p q : Int} (hpq : p ≤ q) : cs.mapPos p .before ≤ cs.mapPos q .after :=
    cs.mapPos_mono hpq nofun
  exact List.pairwise_map.mpr (hs.imp fun hde => hde.imp hkeep hkeep)

end

end DecorationSet

/-! ## Through a transaction -/

theorem LayerEffect.layer_wellFormed (e : LayerEffect) (docLength : Int) :
    (e.layer docLength).WellFormed := by
  rcases e.layer_cases docLength with heq | ⟨spans, -, heq⟩
  · rw [heq]
    exact DecorationSet.empty_wellFormed
  · rw [heq]
    exact DecorationSet.build_wellFormed spans e.style docLength

theorem LayerEffect.layer_inStyle (e : LayerEffect) (docLength : Int) :
    ∀ d ∈ (e.layer docLength).decorations, d.style = e.style := by
  rcases e.layer_cases docLength with heq | ⟨spans, -, heq⟩
  · rw [heq]
    exact fun _ hd => absurd hd List.not_mem_nil
  · rw [heq]
    exact DecorationSet.build_inStyle spans e.style docLength

theorem updateLayer_wellFormed {current : DecorationSet} (h : current.WellFormed) (style : Style)
    (t : Transaction) : (updateLayer style current t).WellFormed := by
  rcases updateLayer_cases style current t with ⟨e, -, -, heq⟩ | ⟨-, heq | heq | ⟨cs, -, hmap⟩⟩
  · rw [heq]
    exact e.layer_wellFormed _
  · rwa [heq]
  · rw [heq]
    exact DecorationSet.empty_wellFormed
  · exact h.map hmap

theorem updateLayer_inStyle {style : Style} {current : DecorationSet}
    (h : ∀ d ∈ current.decorations, d.style = style) (t : Transaction) :
    ∀ d ∈ (updateLayer style current t).decorations, d.style = style := by
  rcases updateLayer_cases style current t with ⟨e, -, rfl, heq⟩ | ⟨-, heq | heq | ⟨cs, -, hmap⟩⟩
  · rw [heq]
    exact e.layer_inStyle _
  · rwa [heq]
  · rw [heq]
    exact fun _ hd => absurd hd List.not_mem_nil
  · exact DecorationSet.map_inStyle hmap h

namespace DecorationSet

/-- Sets are built well formed, and edits and transactions keep them so. -/
theorem wellFormed_kept :
    (∀ spans style docLength, (build spans style docLength).WellFormed ∧
      (build spans style docLength).docLength = docLength ∧
      ∀ d ∈ (build spans style docLength).decorations, d.style = style) ∧
    (∀ (s : DecorationSet) (cs : ChangeSet), s.WellFormed →
      (∃ e, s.map cs = .error e) ∨
      ∃ s', s.map cs = .ok s' ∧ s'.WellFormed ∧ s'.docLength = cs.newLength ∧ s'.size = s.size ∧
        s'.decorations.map Decoration.style = s.decorations.map Decoration.style ∧
        (s.decorations.Pairwise Decoration.Disjoint →
          s'.decorations.Pairwise Decoration.Disjoint)) ∧
    ∀ style (current : DecorationSet) (t : Transaction), current.WellFormed →
      (updateLayer style current t).WellFormed ∧
      ((∀ d ∈ current.decorations, d.style = style) →
        ∀ d ∈ (updateLayer style current t).decorations, d.style = style) := by
  refine ⟨fun spans style docLength => ?_, fun s cs hs => ?_, fun style current t h => ?_⟩
  · exact ⟨build_wellFormed spans style docLength, rfl, build_inStyle spans style docLength⟩
  · cases hmap : s.map cs with
    | error e => exact .inl ⟨e, rfl⟩
    | ok s' =>
      exact .inr ⟨s', rfl, hs.map hmap, map_docLength hmap, map_size hmap, map_styles hmap,
        map_disjoint hmap⟩
  · exact ⟨updateLayer_wellFormed h style t, fun hstyle => updateLayer_inStyle hstyle t⟩

/-- The spans come out of order, leave the text at both ends, and one is inverted; the edit puts text
into the first decoration, replaces what stands between the other two, and adds to the end. -/
theorem wellFormed_kept_shuffled :
    let s := build [⟨6, 12, 0, 6, 0, 12⟩, ⟨-3, 4, 0, 0, 0, 4⟩, ⟨5, 2, 0, 5, 0, 2⟩, ⟨4, 5, 0, 4, 0, 5⟩]
      .selection 10
    let cs : ChangeSet := ⟨[⟨2, 2, 2⟩, ⟨5, 6, 1⟩, ⟨10, 10, 3⟩], 10, firstFault?_eq_none_iff.mp rfl⟩
    let s' : DecorationSet := ⟨[⟨0, 6, .selection⟩, ⟨6, 7, .selection⟩, ⟨8, 12, .selection⟩], 15⟩
    s.map cs = .ok s' ∧ s.WellFormed ∧ s'.WellFormed ∧
      (s.decorations.Pairwise Decoration.Disjoint ∧ s'.decorations.Pairwise Decoration.Disjoint) ∧
      (updateLayer .selection s ⟨[], some cs, 15⟩).WellFormed := by
  intro s cs s'
  have hs : s = ⟨[⟨0, 4, .selection⟩, ⟨4, 5, .selection⟩, ⟨6, 10, .selection⟩], 10⟩ := by
    simp only [s]
    cbv
  have hmap : s.map cs = .ok s' := by
    rw [hs]
    rfl
  have hdisjoint : s.decorations.Pairwise Decoration.Disjoint := by
    simp [hs, Decoration.Disjoint]
  obtain ⟨hbuild, hedit, hlayer⟩ := wellFormed_kept
  have hwell : s.WellFormed := (hbuild _ _ _).1
  rcases hedit s cs hwell with ⟨e, he⟩ | ⟨t, ht, hwell', -, -, -, hkept⟩
  · rw [hmap] at he
    cases he
  · cases hmap.symm.trans ht
    exact ⟨hmap, hwell, hwell', ⟨hdisjoint, hkept hdisjoint⟩, (hlayer _ _ _ hwell).1⟩

end DecorationSet

end Tablature
