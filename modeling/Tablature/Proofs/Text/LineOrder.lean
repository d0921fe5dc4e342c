import Tablature.Proofs.Text.LinePlace

/-!
# Offsets and lines in the same order

The lines of a text are what its newlines separate. Offsets and the places on
these lines are two ways to count the same characters: each leads to the other
and back, both are in the same order, and what lies outside the text is moved to
the nearest place inside it.
-/

namespace Tablature

/-! ## The lines of a text -/

theorem length_startsAfter (k : Nat) (cs : List Char) :
    (startsAfter k cs).length + 1 = (cs.splitOn '\n').length := by
  induction cs generalizing k with
  | nil => rfl
  | cons c cs ih =>
    rw [List.splitOn_cons_eq_if_modifyHead, startsAfter]
    by_cases hc : c = '\n'
    · rw [if_pos hc, if_pos (beq_iff_eq.mpr hc), List.length_cons, List.length_cons, ih (k + 1)]
    · rw [if_neg hc, if_neg (mt beq_iff_eq.mp hc), List.length_modifyHead, ih (k + 1)]

theorem startsAfter_le {k s : Nat} {cs : List Char} (hs : s ∈ startsAfter k cs) :
    s ≤ k + cs.length := by
  induction cs generalizing k with
  | nil => cases hs
  | cons c cs ih =>
    rw [List.length_cons]
    have htail : s ∈ startsAfter (k + 1) cs → s ≤ k + (cs.length + 1) := fun h => by
      have := ih h
      omega
    unfold startsAfter at hs
    split at hs
    · rcases List.mem_cons.mp hs with rfl | hs
      · omega
      · exact htail hs
    · exact htail hs

/-- Of the first line, `k - p` characters stand in front of `cs`. -/
theorem lineLength_startsAfter {p k : Nat} (cs : List Char) (hp : p ≤ k) {l : Nat} {line : List Char}
    (hline : (cs.splitOn '\n')[l]? = some line) :
    LineIndex.lineLength ⟨p :: startsAfter k cs, k + cs.length⟩ l =
      line.length + if l = 0 then k - p else 0 := by
  induction cs generalizing p k l line with
  | nil =>
    cases l with
    | zero =>
      cases hline
      simp [LineIndex.lineLength, LineIndex.start, startsAfter]
    | succ l => cases hline
  | cons c cs ih =>
    have hlength : k + (c :: cs).length = k + 1 + cs.length := by
      rw [List.length_cons]
      omega
    rw [List.splitOn_cons_eq_if_modifyHead] at hline
    rw [startsAfter, hlength]
    by_cases hc : c = '\n'
    · rw [if_pos (beq_iff_eq.mpr hc)] at hline
      rw [if_pos hc]
      cases l with
      | zero =>
        cases hline
        simp [LineIndex.lineLength, LineIndex.start]
      | succ l =>
        have := ih (Nat.le_refl (k + 1)) hline
        rw [Nat.sub_self, ite_self] at this
        exact this
    · rw [if_neg (mt beq_iff_eq.mp hc), List.getElem?_modifyHead] at hline
      rw [if_neg hc]
      cases l with
      | zero =>
        obtain ⟨rest, hrest, rfl⟩ := Option.map_eq_some_iff.mp hline
        rw [ih (Nat.le_succ_of_le hp) hrest, if_pos rfl, if_pos rfl, List.length_cons]
        omega
      | succ l => exact ih (Nat.le_succ_of_le hp) hline

namespace LineIndex

theorem lineCount_ofText (text : List Char) :
    (ofText text).lineCount = (text.splitOn '\n').length := length_startsAfter 0 text

theorem starts_le {text : List Char} {s : Nat} (hs : s ∈ (ofText text).starts) :
    s ≤ text.length := by
  rcases List.mem_cons.mp hs with rfl | hs
  · exact Nat.zero_le _
  · have := startsAfter_le hs
    omega

theorem lineLength_ofText {text : List Char} {l : Nat} {line : List Char}
    (hline : (text.splitOn '\n')[l]? = some line) : (ofText text).lineLength l = line.length := by
  have := lineLength_startsAfter text (Nat.le_refl 0) hline
  rw [Nat.sub_self, ite_self, Nat.zero_add] at this
  exact this

/-! ## From a place to its offset and back -/

section
variable {ix : LineIndex} (hsorted : ix.starts.Pairwise (· < ·))
  (hin : ∀ s ∈ ix.starts, s ≤ ix.textLength) {line column : Nat} (hline : line < ix.lineCount)
  (hcolumn : column ≤ ix.lineLength line)
include hsorted hline hcolumn

theorem start_add_lt {next : Nat} (hnext : ix.starts[line + 1]? = some next) :
    ix.start line + column < next := by
  have hstart := getElem?_starts hline
  obtain ⟨h, rfl⟩ := List.getElem?_eq_some_iff.mp hnext
  obtain ⟨h', hget⟩ := List.getElem?_eq_some_iff.mp hstart
  have hrise := List.pairwise_iff_getElem.mp hsorted line (line + 1) h' h (Nat.lt_succ_self line)
  unfold lineLength at hcolumn
  rw [hnext] at hcolumn
  rw [hget] at hrise
  dsimp only at hcolumn
  omega

theorem countP_start_add : ix.starts.countP (· ≤ ix.start line + column) = line + 1 := by
  have hcount : ix.starts.countP (· ≤ ix.start line + column) ≤ ix.lineCount :=
    List.countP_le_length
  have hfront := (le_iff_lt_countP hsorted (ix.start line + column) (getElem?_starts hline)).mp
    (Nat.le_add_right _ _)
  cases hnext : ix.starts[line + 1]? with
  | none =>
    have : ix.lineCount ≤ line + 1 := List.getElem?_eq_none_iff.mp hnext
    omega
  | some next =>
    have hlt := start_add_lt hsorted hline hcolumn hnext
    have := mt (le_iff_lt_countP hsorted (ix.start line + column) hnext).mpr (by omega)
    omega

include hin

theorem start_add_le : ix.start line + column ≤ ix.textLength := by
  cases hnext : ix.starts[line + 1]? with
  | none =>
    have := hin _ (List.mem_of_getElem? (getElem?_starts hline))
    unfold lineLength at hcolumn
    rw [hnext] at hcolumn
    dsimp only at hcolumn
    omega
  | some next =>
    have hlt := start_add_lt hsorted hline hcolumn hnext
    have := hin next (List.mem_of_getElem? hnext)
    omega

theorem offsetToLineCol_start_add :
    ix.offsetToLineCol (ix.start line + column : Nat) = (line, column) := by
  have hcount := countP_start_add hsorted hline hcolumn
  simp only [offsetToLineCol, clampTo_natCast (start_add_le hsorted hin hline hcolumn), hcount]
  rw [Nat.add_sub_cancel, Nat.add_sub_cancel_left]

end

/-- A place outside the text is moved to the nearest line, and on it to the nearest column. -/
theorem lineColToOffset_inside (text : List Char) (line column : Int) :
    let l := clampTo ((text.splitOn '\n').length - 1) line
    ∃ content, (text.splitOn '\n')[l]? = some content ∧
      (ofText text).lineColToOffset line column ≤ text.length ∧
      (ofText text).offsetToLineCol ((ofText text).lineColToOffset line column) =
        (l, clampTo content.length column) := by
  intro l
  have hle : l ≤ (text.splitOn '\n').length - 1 := clampTo_le _ _
  have hpos : 0 < (text.splitOn '\n').length := List.length_pos_iff.mpr (List.splitOn_ne_nil _ _)
  have hlt : l < (text.splitOn '\n').length := by omega
  have hcontent : (text.splitOn '\n')[l]? = some (text.splitOn '\n')[l] :=
    List.getElem?_eq_getElem hlt
  have hline : l < (ofText text).lineCount := by rwa [lineCount_ofText]
  have hlength := lineLength_ofText hcontent
  have hcolumn : clampTo ((text.splitOn '\n')[l]).length column ≤ (ofText text).lineLength l := by
    rw [hlength]
    exact clampTo_le _ _
  have hoffset : (ofText text).lineColToOffset line column =
      (ofText text).start l + clampTo ((text.splitOn '\n')[l]).length column := by
    rw [lineColToOffset, lineCount_ofText, hlength]
  refine ⟨_, hcontent, ?_, ?_⟩
  · rw [hoffset]
    exact start_add_le (starts_sorted text) (fun _ => starts_le) hline hcolumn
  · rw [hoffset]
    exact offsetToLineCol_start_add (starts_sorted text) (fun _ => starts_le) hline hcolumn

/-! ## The order of offsets -/

theorem start_add_columnOf {text : List Char} {o : Nat} (ho : o ≤ text.length) :
    (ofText text).start (lineOf text o) + columnOf text o = o := by
  have hplace := offsetToLineCol_ofText text o
  simp only [offsetToLineCol, show (ofText text).textLength = text.length from rfl,
    clampTo_natCast ho, Prod.mk.injEq] at hplace
  obtain ⟨hline, hcolumn⟩ := hplace
  have hle := start_lineAt_le (starts_sorted text) (countP_starts_pos text o)
  rw [hline] at hle hcolumn
  omega

end LineIndex

theorem lt_iff_place_lt {text : List Char} {o₁ o₂ : Nat} (h₁ : o₁ ≤ text.length)
    (h₂ : o₂ ≤ text.length) :
    o₁ < o₂ ↔ lineOf text o₁ < lineOf text o₂ ∨
      lineOf text o₁ = lineOf text o₂ ∧ columnOf text o₁ < columnOf text o₂ := by
  have hplace₁ := LineIndex.start_add_columnOf h₁
  have hplace₂ := LineIndex.start_add_columnOf h₂
  constructor
  · intro hlt
    rcases Nat.lt_or_eq_of_le (lineOf_mono text (Nat.le_of_lt hlt)) with hline | hline
    · exact .inl hline
    · rw [hline] at hplace₁
      exact .inr ⟨hline, by omega⟩
  · rintro (hline | ⟨hline, hcolumn⟩)
    · exact Nat.lt_of_not_le fun hle => Nat.not_lt.mpr (lineOf_mono text hle) hline
    · rw [hline] at hplace₁
      omega

theorem offsetToLineCol_isomorphism (text : List Char) :
    (∀ o : Int, let inside := (max 0 (min o text.length)).toNat
      offsetToLineCol text o = (lineOf text inside, columnOf text inside) ∧
      lineColToOffset text (offsetToLineCol text o).1 (offsetToLineCol text o).2 = inside) ∧
    (∀ line column : Int, let l := (max 0 (min line ((text.splitOn '\n').length - 1))).toNat
      ∃ content, (text.splitOn '\n')[l]? = some content ∧
        lineColToOffset text line column ≤ text.length ∧
        offsetToLineCol text (lineColToOffset text line column) =
          (l, (max 0 (min column content.length)).toNat)) ∧
    ∀ o₁ o₂ : Int, max 0 (min o₁ text.length) < max 0 (min o₂ text.length) ↔
      (offsetToLineCol text o₁).1 < (offsetToLineCol text o₂).1 ∨
      (offsetToLineCol text o₁).1 = (offsetToLineCol text o₂).1 ∧
        (offsetToLineCol text o₁).2 < (offsetToLineCol text o₂).2 := by
  have hplace : ∀ o : Int, offsetToLineCol text o =
      (lineOf text (clampTo text.length o), columnOf text (clampTo text.length o)) :=
    offsetToLineCol_ofText text
  have hin : ∀ o : Int, clampTo text.length o ≤ text.length := clampTo_le text.length
  have hpos : 0 < (text.splitOn '\n').length := List.length_pos_iff.mpr (List.splitOn_ne_nil _ _)
  have hlast : ((text.splitOn '\n').length : Int) - 1 = ((text.splitOn '\n').length - 1 : Nat) := by
    omega
  simp only [hlast, ← clampTo_eq]
  refine ⟨fun o => ⟨hplace o, ?_⟩, LineIndex.lineColToOffset_inside text, fun o₁ o₂ => ?_⟩
  · exact LineIndex.lineColToOffset_offsetToLineCol_eq_clampTo text o
  · rw [hplace o₁, hplace o₂, ← natCast_clampTo, ← natCast_clampTo, Int.ofNat_lt]
    exact lt_iff_place_lt (hin o₁) (hin o₂)

end Tablature
