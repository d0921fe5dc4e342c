import Tablature.Proofs.Score.CursorPlace
import Tablature.Proofs.Score.Resolution
import Tablature.Proofs.Score.SelectionSpans
import Tablature.Proofs.Text.LineOrder

/-!
# The nearest beat

The beat that an offset touches is at distance zero, so the lookup of an offset
is a single search for the earliest of the nearest beats. This holds of spans in
any order, also of spans that overlap or run backwards, as long as their ends are
near enough to the text for distances to be exact.

The score never moves backward when the cursor moves forward. Of two beats that
are apart, the second only comes closer in comparison as the offset grows, so the
nearest of all beats stays or moves on.
-/

namespace Tablature

namespace Span

theorem exactDistance_nonneg (s : Span) (o : Int) : 0 ≤ s.exactDistance o := by
  unfold exactDistance
  omega

theorem contains_iff_exactDistance_eq_zero {s : Span} {o : Int} :
    s.contains o = true ↔ s.exactDistance o = 0 := by
  rw [contains_iff]
  unfold exactDistance
  omega

theorem distance_eq_exactDistance {s : Span} (h : s.hasExactDistances = true) (o : Int) :
    s.distance o = s.exactDistance o := if_pos h

/-- No end of the span is a quarter of the word size away from the start of the text. -/
def NearText (s : Span) : Prop :=
  (-4611686018427387904 < s.start ∧ s.start < 4611686018427387904) ∧
    -4611686018427387904 < s.stop ∧ s.stop < 4611686018427387904

theorem NearText.hasExactDistances {s : Span} (h : s.NearText) : s.hasExactDistances = true := by
  unfold NearText at h
  simp only [Span.hasExactDistances, Bool.and_eq_true, decide_eq_true_eq]
  omega

theorem NearText.isInWords {s : Span} (h : s.NearText) : s.isInWords = true := by
  unfold NearText at h
  simp only [Span.isInWords, isWord, Bool.and_eq_true, decide_eq_true_eq]
  omega

end Span

/-- The beat at index `i` is the earliest of those that are nearest to an offset. -/
def NearestAt (beats : List Beat) (o : Int) (i : Nat) : Prop :=
  FirstAt (fun b => ∀ c ∈ beats, b.span.exactDistance o ≤ c.span.exactDistance o) beats i

/-- A touched beat is nearest, and as all others at distance zero are touched, the first of both
is the same. -/
theorem nearestAt_of_contains {beats : List Beat} {o : Int} {i : Nat}
    (h : FirstAt (·.span.contains o = true) beats i) : NearestAt beats o i := by
  obtain ⟨b, hb⟩ := h.exists_getElem?
  have hzero : b.span.exactDistance o = 0 :=
    Span.contains_iff_exactDistance_eq_zero.mp (h.test_of_getElem? hb)
  refine h.of_stricter hb (fun c _ => ?_) fun c hc => ?_
  · rw [hzero]
    exact c.span.exactDistance_nonneg o
  · have hle := hc b (List.mem_of_getElem? hb)
    have hnonneg := c.span.exactDistance_nonneg o
    exact Span.contains_iff_exactDistance_eq_zero.mpr (by omega)

namespace BeatMap

def OutOfReach (m : BeatMap) (o : Int) : Prop :=
  o < m.contentStart ∨ m.beats = [] ∨ ∀ b ∈ m.beats, 50 ≤ b.span.exactDistance o

section
variable {m : BeatMap} (hexact : ∀ b ∈ m.beats, b.span.hasExactDistances = true)
include hexact

theorem nearest?_eq (o : Int) :
    m.nearest? o =
      (earliestMin? (·.span.exactDistance o) m.beats).filter (·.span.exactDistance o < 50) := by
  have hsame : ∀ b ∈ m.beats, b.span.distance o = b.span.exactDistance o :=
    fun b hb => Span.distance_eq_exactDistance (hexact b hb) o
  unfold nearest?
  rw [earliestMin?_congr hsame]
  cases hmin : earliestMin? (·.span.exactDistance o) m.beats with
  | none => rfl
  | some b =>
    obtain ⟨i, hi, -⟩ := firstAt_of_earliestMin? hmin
    rw [Option.filter_some, Option.filter_some, hsame b (List.mem_of_getElem? hi)]
    rfl

/-- Behind the header the two stages of the lookup are one search. -/
theorem beatAt?_eq {o : Int} (ho : ¬ o < m.contentStart) :
    m.beatAt? o =
      (earliestMin? (·.span.exactDistance o) m.beats).filter (·.span.exactDistance o < 50) := by
  rw [beatAt?, if_neg ho]
  cases hfound : m.beats.find? (·.span.contains o) with
  | none => rw [Option.none_or, nearest?_eq hexact]
  | some b =>
    obtain ⟨i, hi, hfirst⟩ := firstAt_of_find? hfound
    have hzero : b.span.exactDistance o = 0 :=
      Span.contains_iff_exactDistance_eq_zero.mp (hfirst.test_of_getElem? hi)
    cases hmin : earliestMin? (·.span.exactDistance o) m.beats with
    | none =>
      rw [earliestMin?_eq_none_iff] at hmin
      rw [hmin] at hi
      cases hi
    | some c =>
      obtain ⟨j, hj, hnearest⟩ := firstAt_of_earliestMin? hmin
      cases (nearestAt_of_contains hfirst).unique hnearest
      cases hi.symm.trans hj
      rw [Option.some_or, Option.filter_some, if_pos (by rw [hzero]; rfl)]

theorem beatAt?_cases (o : Int) :
    m.OutOfReach o ∧ m.beatAt? o = none ∨
      ¬ m.OutOfReach o ∧ ∃ i b, NearestAt m.beats o i ∧ m.beats[i]? = some b ∧
        m.beatAt? o = some b := by
  by_cases hheader : o < m.contentStart
  · exact .inl ⟨.inl hheader, if_pos hheader⟩
  · rw [beatAt?_eq hexact hheader]
    cases hmin : earliestMin? (·.span.exactDistance o) m.beats with
    | none => exact .inl ⟨.inr (.inl (earliestMin?_eq_none_iff.mp hmin)), rfl⟩
    | some b =>
      obtain ⟨i, hi, hnearest⟩ := firstAt_of_earliestMin? hmin
      have hmem := List.mem_of_getElem? hi
      by_cases hclose : b.span.exactDistance o < 50
      · refine .inr ⟨?_, i, b, hnearest, hi, ?_⟩
        · rintro (hlt | hnil | hfar)
          · exact hheader hlt
          · rw [hnil] at hmem
            cases hmem
          · exact Int.not_le.mpr hclose (hfar b hmem)
        · rw [Option.filter_some, if_pos (decide_eq_true hclose)]
      · refine .inl ⟨.inr (.inr fun c hc => ?_), ?_⟩
        · exact Int.le_trans (Int.not_lt.mp hclose) (hnearest.test_of_getElem? hi c hc)
        · rw [Option.filter_some, if_neg (by simpa using hclose)]

end

theorem locate?_eq {m : BeatMap} (hwords : ∀ b ∈ m.beats, b.span.isInWords = true) (ix : LineIndex)
    (line column : Int) : m.locate? ix line column = some (m.locate ix line column) := by
  have hall : m.beats.all (·.span.isInWords) = true := List.all_eq_true.mpr hwords
  simp [locate?, hall]

/-- The lookup answers with the earliest of the nearest beats, and with no beat when the offset is
out of reach. The line and column stay as they are. Distances in words are exact. -/
theorem locate?_nearest {m : BeatMap} (hnear : ∀ b ∈ m.beats, b.span.NearText) (text : List Char)
    (line column : Int) :
    let o : Int := lineColToOffset text line column
    (∃ p, m.locate? (.ofText text) line column = some ⟨line, column, p, false⟩ ∧
      (m.OutOfReach o ∧ p = .nowhere ∨
        ¬ m.OutOfReach o ∧ ∃ i b, NearestAt m.beats o i ∧ m.beats[i]? = some b ∧ p = b.position) ∧
      ((∀ b ∈ m.beats, b.position ≠ .nowhere) → (p = .nowhere ↔ m.OutOfReach o))) ∧
    (text.length < 4611686018427387904 →
      ∀ b ∈ m.beats, b.span.wordDistance o = b.span.exactDistance o) := by
  intro o
  have hwords : ∀ b ∈ m.beats, b.span.isInWords = true := fun b hb => (hnear b hb).isInWords
  have hexact : ∀ b ∈ m.beats, b.span.hasExactDistances = true :=
    fun b hb => (hnear b hb).hasExactDistances
  refine ⟨⟨_, locate?_eq hwords _ line column, ?_⟩, fun hshort b hb => ?_⟩
  · rcases beatAt?_cases hexact o with ⟨hout, hnone⟩ | ⟨hreach, i, b, hnearest, hi, hsome⟩
    · have hp : ((m.beatAt? o).map Beat.position).getD .nowhere = .nowhere := by rw [hnone]; rfl
      exact ⟨.inl ⟨hout, hp⟩, fun _ => iff_of_true hp hout⟩
    · have hp : ((m.beatAt? o).map Beat.position).getD .nowhere = b.position := by rw [hsome]; rfl
      refine ⟨.inr ⟨hreach, i, b, hnearest, hi, hp⟩, fun hplaces => iff_of_false ?_ hreach⟩
      exact fun h => hplaces b (List.mem_of_getElem? hi) (hp.symm.trans h)
  · obtain ⟨-, -, hle, -⟩ := LineIndex.lineColToOffset_inside text line column
    have ho : o ≤ text.length := Int.ofNat_le.mpr hle
    exact Span.wordDistance_eq_exactDistance (hexact b hb) (hwords b hb) (Int.natCast_nonneg _)
      (by omega)

/-- Of two overlapping beats that are as near, the first in the list is taken. A third one runs
backwards around the cursor. -/
theorem locate?_nearest_tie :
    let m : BeatMap := ⟨[⟨⟨0, 0⟩, ⟨9, 12, 0, 9, 0, 12⟩⟩, ⟨⟨4, 1⟩, ⟨2, 3, 0, 2, 0, 3⟩⟩,
      ⟨⟨1, 0⟩, ⟨1, 3, 0, 1, 0, 3⟩⟩, ⟨⟨2, 0⟩, ⟨7, 4, 0, 7, 0, 4⟩⟩], 1⟩
    let ix := LineIndex.ofText "0123456789".toList
    (∀ b ∈ m.beats, b.span.NearText) ∧
      m.locate? ix 7 5 = some ⟨7, 5, ⟨4, 1⟩, false⟩ ∧ ¬ m.OutOfReach 5 ∧
        ∃ i b, NearestAt m.beats 5 i ∧ m.beats[i]? = some b ∧ ⟨4, 1⟩ = b.position := by
  intro m ix
  have hnear : ∀ b ∈ m.beats, b.span.NearText := by simp [m, Span.NearText]
  have hlocate : m.locate? ix 7 5 = some ⟨7, 5, ⟨4, 1⟩, false⟩ := by decide +kernel
  have hoffset : (lineColToOffset "0123456789".toList 7 5 : Int) = 5 := by decide +kernel
  obtain ⟨⟨p, hp, hcases, -⟩, -⟩ := locate?_nearest hnear "0123456789".toList 7 5
  rw [hoffset] at hcases
  cases hlocate.symm.trans hp
  rcases hcases with ⟨-, hnowhere⟩ | hreach
  · cases hnowhere
  · exact ⟨hnear, hlocate, hreach⟩

end BeatMap

/-! ## A cursor that moves forward -/

/-- Once the second of two spans is nearer than the first, it remains so. -/
theorem Span.exactDistance_le_of_le {s t : Span} (hs : s.start < s.stop) (ht : t.start < t.stop)
    (hapart : s.stop ≤ t.start) {o₁ o₂ : Int} (h : o₁ ≤ o₂)
    (hle : s.exactDistance o₂ ≤ t.exactDistance o₂) :
    s.exactDistance o₁ ≤ t.exactDistance o₁ := by
  unfold exactDistance at *
  omega

theorem NearestAt.mono {beats : List Beat}
    (hapart : beats.Pairwise fun a b => a.span.stop ≤ b.span.start)
    (hrun : ∀ b ∈ beats, b.span.start < b.span.stop) {o₁ o₂ : Int} (h : o₁ ≤ o₂) {i j : Nat}
    (h₁ : NearestAt beats o₁ i) (h₂ : NearestAt beats o₂ j) : i ≤ j := by
  refine Nat.not_lt.mp fun hlt => ?_
  obtain ⟨b, hb⟩ := h₁.exists_getElem?
  obtain ⟨a, ha⟩ := h₂.exists_getElem?
  have hbmem := List.mem_of_getElem? hb
  have hamem := List.mem_of_getElem? ha
  -- the earlier beat is no farther than the later one at the second offset, so neither at the first
  have hle : a.span.exactDistance o₁ ≤ b.span.exactDistance o₁ :=
    Span.exactDistance_le_of_le (hrun a hamem) (hrun b hbmem) (rel_of_getElem? hapart ha hb hlt) h
      (h₂.test_of_getElem? ha b hbmem)
  have hnearest : ∀ c ∈ beats, a.span.exactDistance o₁ ≤ c.span.exactDistance o₁ :=
    fun c hc => Int.le_trans hle (h₁.test_of_getElem? hb c hc)
  exact Nat.not_le.mpr hlt (h₁.le_of_test ha hnearest)

theorem position_le_of_getElem? {beats : List Beat}
    (hrise : beats.Pairwise fun a b => a.position.Precedes b.position) {i j : Nat} {a b : Beat}
    (ha : beats[i]? = some a) (hb : beats[j]? = some b) (hle : i ≤ j) :
    a.position.bar < b.position.bar ∨
      a.position.bar = b.position.bar ∧ a.position.beat ≤ b.position.beat := by
  rcases Nat.lt_or_eq_of_le hle with hlt | rfl
  · have : a.position.Precedes b.position := rel_of_getElem? hrise ha hb hlt
    unfold ScorePosition.Precedes at this
    omega
  · cases ha.symm.trans hb
    exact .inr ⟨rfl, Int.le_refl _⟩

namespace BeatMap

theorem ofText_hasExactDistances {text : List Char} {b : Beat} (hb : b ∈ (ofText text).beats) :
    b.span.hasExactDistances = true := by
  obtain ⟨hstart, hlt, -⟩ := ofText_inText hb
  simp only [Span.hasExactDistances, Bool.and_eq_true, decide_eq_true_eq]
  omega

end BeatMap

/-- A cursor that is somewhere in the score is at the nearest beat. -/
theorem locate_nearestAt {text : List Char} {o : Int}
    (h : (locate text (offsetToLineCol text o).1 (offsetToLineCol text o).2).position ≠ .nowhere) :
    ∃ i b, NearestAt (BeatMap.ofText text).beats (clampTo text.length o) i ∧
      (BeatMap.ofText text).beats[i]? = some b ∧
      (locate text (offsetToLineCol text o).1 (offsetToLineCol text o).2).position = b.position := by
  rw [locate_position] at h ⊢
  rcases BeatMap.beatAt?_cases (fun _ => BeatMap.ofText_hasExactDistances)
    (clampTo text.length o) with ⟨-, hnone⟩ | ⟨-, i, b, hnearest, hi, hsome⟩
  · rw [hnone] at h
    exact absurd rfl h
  · rw [hsome]
    exact ⟨i, b, hnearest, hi, rfl⟩

theorem locate_mono (text : List Char) {o₁ o₂ : Int} (h : o₁ ≤ o₂) :
    let place (o : Int) := (locate text (offsetToLineCol text o).1 (offsetToLineCol text o).2).position
    place o₁ ≠ .nowhere → place o₂ ≠ .nowhere →
      (place o₁).bar < (place o₂).bar ∨
        (place o₁).bar = (place o₂).bar ∧ (place o₁).beat ≤ (place o₂).beat := by
  intro place h₁ h₂
  obtain ⟨i, a, hnearest₁, hi, ha⟩ := locate_nearestAt h₁
  obtain ⟨j, b, hnearest₂, hj, hb⟩ := locate_nearestAt h₂
  have hoffsets : (clampTo text.length o₁ : Int) ≤ clampTo text.length o₂ :=
    Int.ofNat_le.mpr (clampTo_mono text.length h)
  have hle : i ≤ j :=
    hnearest₁.mono (BeatMap.ofText_apart text) (fun _ => BeatMap.ofText_start_lt_stop text)
      hoffsets hnearest₂
  rw [show place o₁ = a.position from ha, show place o₂ = b.position from hb]
  exact position_le_of_getElem? (BeatMap.ofText_rise text) hi hj hle

/-- In the gap between two bars the cursor changes from one to the other. -/
theorem locate_mono_gap :
    let text := "1  |  2".toList
    let place (o : Int) := (locate text (offsetToLineCol text o).1 (offsetToLineCol text o).2).position
    ((3 : Int) ≤ 4 ∧ place 3 ≠ .nowhere ∧ place 4 ≠ .nowhere) ∧
      ((place 3).bar < (place 4).bar ∨
        (place 3).bar = (place 4).bar ∧ (place 3).beat ≤ (place 4).beat) := by
  intro text place
  have h₁ : place 3 ≠ .nowhere := by decide +kernel
  have h₂ : place 4 ≠ .nowhere := by decide +kernel
  exact ⟨⟨by decide, h₁, h₂⟩, locate_mono text (by decide) h₁ h₂⟩

end Tablature
