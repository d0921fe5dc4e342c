import Tablature.Proofs.Highlight.WellFormed

/-!
# Building from spans in any order

Where the decorations of a set begin and end is given by the spans that it was
built from, cut to the text and without those that became empty. The set holds
them in order, so the order of the spans does not matter, and a set that is built
again from where its decorations begin and end is the same.
-/

namespace Tablature

def Span.ends (s : Span) : Int × Int := (s.start, s.stop)

/-- The ends of a span moved into a text, which holds nothing when its length is negative. -/
def Span.endsWithin (docLength : Int) (s : Span) : Int × Int :=
  (max 0 (min s.start (max 0 docLength)), max 0 (min s.stop (max 0 docLength)))

def Decoration.ends (d : Decoration) : Int × Int := (d.start, d.stop)

namespace DecorationSet

def ends (s : DecorationSet) : List (Int × Int) := s.decorations.map Decoration.ends

def InOrder (ps : List (Int × Int)) : Prop :=
  ps.Pairwise fun p q => p.1 < q.1 ∨ p.1 = q.1 ∧ p.2 ≤ q.2

def nonemptyEnds (spans : List Span) (docLength : Int) : List (Int × Int) :=
  (spans.map (Span.endsWithin docLength)).filter fun p => p.1 < p.2

structure IsBuilt (spans : List Span) (style : Style) (docLength : Int) (s : DecorationSet) :
    Prop where
  length : s.docLength = docLength
  inStyle : ∀ d ∈ s.decorations, d.style = style
  sameEnds : s.ends.Perm (nonemptyEnds spans docLength)
  inOrder : InOrder s.ends

section
variable {spans spans' : List Span} {style : Style} {docLength : Int} {s s' : DecorationSet}

theorem InOrder.eq_of_perm {ps qs : List (Int × Int)} (hp : InOrder ps) (hq : InOrder qs)
    (h : ps.Perm qs) : ps = qs := by
  refine List.Perm.eq_of_pairwise (fun p q _ _ hpq hqp => ?_) hp hq h
  exact Prod.ext (by omega) (by omega)

theorem decorations_eq_of_inStyle (h : ∀ d ∈ s.decorations, d.style = style) :
    s.decorations = s.ends.map fun p => ⟨p.1, p.2, style⟩ := by
  have hself : s.decorations.map ((fun p => ⟨p.1, p.2, style⟩) ∘ Decoration.ends) =
      s.decorations.map id := by
    refine List.map_congr_left fun d hd => ?_
    rw [← h d hd]
    rfl
  rw [ends, List.map_map, hself, List.map_id]

theorem IsBuilt.unique (h : s.IsBuilt spans style docLength)
    (h' : s'.IsBuilt spans style docLength) : s = s' := by
  have hends : s.ends = s'.ends := h.inOrder.eq_of_perm h'.inOrder (h.sameEnds.trans h'.sameEnds.symm)
  have hdecorations : s.decorations = s'.decorations := by
    rw [decorations_eq_of_inStyle h.inStyle, decorations_eq_of_inStyle h'.inStyle, hends]
  have hlength : s.docLength = s'.docLength := h.length.trans h'.length.symm
  cases s
  cases s'
  cases hdecorations
  cases hlength
  rfl

theorem IsBuilt.perm (h : s.IsBuilt spans style docLength) (hspans : spans.Perm spans') :
    s.IsBuilt spans' style docLength where
  length := h.length
  inStyle := h.inStyle
  sameEnds := h.sameEnds.trans ((hspans.map _).filter _)
  inOrder := h.inOrder

end

/-! ## What is built -/

variable (spans : List Span) (style : Style) (docLength : Int)

theorem endsWithin_eq (span : Span) :
    span.endsWithin docLength = (clamp docLength span.start, clamp docLength span.stop) := by
  unfold Span.endsWithin clamp
  exact Prod.ext (by dsimp only; omega) (by dsimp only; omega)

theorem filterMap_decorate?_ends :
    (spans.filterMap (decorate? style docLength)).map Decoration.ends =
      nonemptyEnds spans docLength := by
  induction spans with
  | nil => rfl
  | cons span spans ih =>
    rw [nonemptyEnds, List.map_cons, List.filter_cons, endsWithin_eq, ← nonemptyEnds, ← ih]
    by_cases h : clamp docLength span.start < clamp docLength span.stop
    · rw [List.filterMap_cons_some (decorate?_eq_some_iff.mpr ⟨rfl, h⟩), if_pos (decide_eq_true h)]
      rfl
    · have hnone : decorate? style docLength span = none := if_neg h
      rw [List.filterMap_cons_none hnone, if_neg (by simpa using h)]

theorem build_isBuilt : (build spans style docLength).IsBuilt spans style docLength where
  length := rfl
  inStyle := build_inStyle spans style docLength
  sameEnds := by
    rw [← filterMap_decorate?_ends spans style docLength]
    exact (List.mergeSort_perm ..).map _
  inOrder := by
    have hsorted := List.pairwise_mergeSort Decoration.before_trans Decoration.before_total
      (spans.filterMap (decorate? style docLength))
    exact List.pairwise_map.mpr (hsorted.imp Decoration.before_iff.mp)

theorem eq_build_iff {s : DecorationSet} :
    s = build spans style docLength ↔ s.IsBuilt spans style docLength := by
  constructor
  · rintro rfl
    exact build_isBuilt spans style docLength
  · exact fun h => h.unique (build_isBuilt spans style docLength)

/-- Spans that lie within the text lose nothing. -/
theorem nonemptyEnds_of_inText {spans : List Span}
    (h : ∀ p ∈ spans.map Span.ends, 0 ≤ p.1 ∧ p.1 < p.2 ∧ p.2 ≤ docLength) :
    nonemptyEnds spans docLength = spans.map Span.ends := by
  have hwithin : spans.map (Span.endsWithin docLength) = spans.map Span.ends := by
    refine List.map_congr_left fun s hs => ?_
    obtain ⟨h₁, h₂, h₃⟩ := h s.ends (List.mem_map_of_mem hs)
    simp only [Span.ends] at h₁ h₂ h₃
    exact Prod.ext (by simp only [Span.endsWithin, Span.ends]; omega)
      (by simp only [Span.endsWithin, Span.ends]; omega)
  rw [nonemptyEnds, hwithin]
  exact List.filter_eq_self.mpr fun p hp => decide_eq_true (h p hp).2.1

theorem build_canonical :
    (∀ s : DecorationSet, s = build spans style docLength ↔ s.IsBuilt spans style docLength) ∧
    (∀ spans' : List Span, spans'.Perm spans →
      build spans' style docLength = build spans style docLength) ∧
    ∀ spans' : List Span, spans'.map Span.ends = (build spans style docLength).ends →
      build spans' style docLength = build spans style docLength := by
  have hbuilt := build_isBuilt spans style docLength
  refine ⟨fun s => eq_build_iff spans style docLength, fun spans' h => ?_, fun spans' h => ?_⟩
  · exact ((eq_build_iff spans' style docLength).mpr (hbuilt.perm h.symm)).symm
  · have hin : ∀ p ∈ spans'.map Span.ends, 0 ≤ p.1 ∧ p.1 < p.2 ∧ p.2 ≤ docLength := by
      rw [h]
      intro p hp
      obtain ⟨d, hd, rfl⟩ := List.mem_map.mp hp
      exact build_inText spans style docLength d hd
    have hends : nonemptyEnds spans' docLength = (build spans style docLength).ends :=
      (nonemptyEnds_of_inText docLength hin).trans h
    refine ((eq_build_iff spans' style docLength).mpr ⟨rfl, hbuilt.inStyle, ?_, hbuilt.inOrder⟩).symm
    rw [hends]

/-- Two spans become the same when they are cut, two begin at the same offset, and one is empty. -/
theorem build_canonical_shuffled :
    let spans : List Span := [⟨6, 12, 0, 6, 0, 12⟩, ⟨-3, 4, 0, 0, 0, 4⟩, ⟨6, 8, 0, 6, 0, 8⟩,
      ⟨0, 4, 0, 0, 0, 4⟩, ⟨12, 15, 1, 0, 1, 3⟩]
    let spans' : List Span := [⟨0, 4, 0, 0, 0, 4⟩, ⟨0, 4, 0, 0, 0, 4⟩, ⟨6, 8, 0, 6, 0, 8⟩,
      ⟨6, 10, 0, 6, 0, 10⟩]
    let s : DecorationSet :=
      ⟨[⟨0, 4, .playback⟩, ⟨0, 4, .playback⟩, ⟨6, 8, .playback⟩, ⟨6, 10, .playback⟩], 10⟩
    s.IsBuilt spans .playback 10 ∧
      (spans.reverse.Perm spans ∧ build spans.reverse .playback 10 = s) ∧
      spans'.map Span.ends = s.ends ∧ build spans' .playback 10 = s := by
  intro spans spans' s
  have hbuild : build spans .playback 10 = s := by
    simp only [spans, s]
    cbv
  obtain ⟨hiff, horder, hagain⟩ := build_canonical spans .playback 10
  rw [hbuild] at hiff horder hagain
  have hreverse : spans.reverse.Perm spans := List.reverse_perm spans
  have hends : spans'.map Span.ends = s.ends := rfl
  exact ⟨(hiff s).mp rfl, ⟨hreverse, horder _ hreverse⟩, hends, hagain spans' hends⟩

end DecorationSet

end Tablature
