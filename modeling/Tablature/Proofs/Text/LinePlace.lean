import Tablature.Text.LineIndex

/-!
# The line and column of an offset

A line index answers with the number of newlines in front of an offset and with
the distance of the offset from the last of them, or from the start of the text.

The lines of a text start at increasing offsets, so the line of an offset starts
at or before it and the next one behind it. The line and column of an offset
lead back to it.
-/

namespace Tablature

def lineOf (text : List Char) (offset : Nat) : Nat := (text.take offset).count '\n'

def columnOf (text : List Char) (offset : Nat) : Nat :=
  ((text.take offset).reverse.takeWhile (· != '\n')).length

theorem lineOf_mono (text : List Char) {o₁ o₂ : Nat} (h : o₁ ≤ o₂) : lineOf text o₁ ≤ lineOf text o₂ :=
  (List.take_prefix_take_left h).sublist.count_le _

theorem clampTo_le (top : Nat) (n : Int) : clampTo top n ≤ top := Nat.min_le_right _ _

theorem clampTo_natCast {top n : Nat} (h : n ≤ top) : clampTo top n = n := by
  rw [clampTo, Int.toNat_natCast]
  exact Nat.min_eq_left h

theorem natCast_clampTo (top : Nat) (n : Int) : (clampTo top n : Int) = max 0 (min n top) := by
  unfold clampTo
  omega

theorem clampTo_eq (top : Nat) (n : Int) : clampTo top n = (max 0 (min n top)).toNat := by
  rw [← natCast_clampTo, Int.toNat_natCast]

theorem clampTo_mono (top : Nat) {m n : Int} (h : m ≤ n) : clampTo top m ≤ clampTo top n := by
  unfold clampTo
  omega

/-! ## Counting columns from the front -/

def nextColumn (column : Nat) (c : Char) : Nat := if c = '\n' then 0 else column + 1

theorem foldl_nextColumn_reverse (ys : List Char) :
    ys.reverse.foldl nextColumn 0 = (ys.takeWhile (· != '\n')).length := by
  induction ys with
  | nil => rfl
  | cons c ys ih =>
    rw [List.reverse_cons, List.foldl_append, ih]
    by_cases hc : c = '\n'
    · simp [nextColumn, hc]
    · simp [nextColumn, hc]

theorem columnOf_eq_foldl (text : List Char) (offset : Nat) :
    columnOf text offset = (text.take offset).foldl nextColumn 0 := by
  rw [columnOf, ← foldl_nextColumn_reverse, List.reverse_reverse]

/-! ## Line starts up to an offset -/

theorem countP_startsAfter (o k : Nat) (cs : List Char) :
    (startsAfter k cs).countP (· ≤ o) = (cs.take (o - k)).count '\n' := by
  induction cs generalizing k with
  | nil => simp [startsAfter]
  | cons c cs ih =>
    rcases Nat.lt_or_ge k o with h | h
    · obtain ⟨n, hn⟩ : ∃ n, o - k = n + 1 := ⟨o - k - 1, by omega⟩
      have hn' : o - (k + 1) = n := by omega
      rw [hn, List.take_succ_cons, List.count_cons, ← hn', ← ih, startsAfter]
      by_cases hc : c = '\n'
      · rw [if_pos hc, List.countP_cons_of_pos (by simp; omega)]
        simp [hc]
      · rw [if_neg hc]
        simp [hc]
    · have h0 : o - (k + 1) = 0 := by omega
      have hk : (startsAfter (k + 1) cs).countP (· ≤ o) = 0 := by rw [ih, h0]; rfl
      rw [show o - k = 0 by omega, startsAfter]
      by_cases hc : c = '\n'
      · rw [if_pos hc, List.countP_cons_of_neg (by simp; omega), hk]; rfl
      · rw [if_neg hc, hk]; rfl

/-- `p` is where the line of the first character starts. -/
theorem sub_getD_startsAfter {o p k : Nat} (cs : List Char) (hp : p ≤ k) (hk : k ≤ o)
    (ho : o ≤ k + cs.length) :
    o - (p :: startsAfter k cs).getD ((cs.take (o - k)).count '\n') 0 =
      (cs.take (o - k)).foldl nextColumn (k - p) := by
  induction cs generalizing p k with
  | nil =>
    rw [List.length_nil] at ho
    have : o = k := by omega
    subst this
    simp
  | cons c cs ih =>
    rw [List.length_cons] at ho
    rcases Nat.lt_or_ge k o with h | h
    · obtain ⟨n, hn⟩ : ∃ n, o - k = n + 1 := ⟨o - k - 1, by omega⟩
      have hn' : o - (k + 1) = n := by omega
      rw [hn, List.take_succ_cons, List.count_cons, List.foldl_cons, startsAfter]
      by_cases hc : c = '\n'
      · have := ih (p := k + 1) (k := k + 1) (Nat.le_refl _) h (by omega)
        rw [hn', Nat.sub_self] at this
        simpa [hc, nextColumn] using this
      · have := ih (p := p) (k := k + 1) (by omega) h (by omega)
        rw [hn', show k + 1 - p = k - p + 1 by omega] at this
        simpa [hc, nextColumn] using this
    · have : o = k := by omega
      subst this
      simp

theorem offsetToLineCol_ofText (text : List Char) (offset : Int) :
    (LineIndex.ofText text).offsetToLineCol offset =
      (lineOf text (clampTo text.length offset), columnOf text (clampTo text.length offset)) := by
  have ho := clampTo_le text.length offset
  generalize hc : clampTo text.length offset = o at ho
  have hline : (0 :: startsAfter 0 text).countP (· ≤ o) - 1 = lineOf text o := by
    rw [List.countP_cons_of_pos (by simp), countP_startsAfter]
    rfl
  have hcolumn : o - (0 :: startsAfter 0 text).getD (lineOf text o) 0 = columnOf text o := by
    rw [columnOf_eq_foldl]
    exact sub_getD_startsAfter text (Nat.le_refl 0) (Nat.zero_le o) (by omega)
  simp only [LineIndex.offsetToLineCol, LineIndex.ofText, LineIndex.start, hc]
  rw [hline, hcolumn]

/-! ## From an offset to its line and back -/

theorem startsAfter_gt {k s : Nat} {cs : List Char} (hs : s ∈ startsAfter k cs) : k < s := by
  induction cs generalizing k with
  | nil => cases hs
  | cons c cs ih =>
    unfold startsAfter at hs
    split at hs
    · rcases List.mem_cons.mp hs with rfl | hs
      · exact Nat.lt_succ_self k
      · exact Nat.lt_of_succ_lt (ih hs)
    · exact Nat.lt_of_succ_lt (ih hs)

theorem startsAfter_sorted (k : Nat) (cs : List Char) :
    (startsAfter k cs).Pairwise (· < ·) := by
  induction cs generalizing k with
  | nil => exact .nil
  | cons c cs ih =>
    unfold startsAfter
    split
    · exact .cons (fun s hs => startsAfter_gt hs) (ih (k + 1))
    · exact ih (k + 1)

theorem LineIndex.starts_sorted (text : List Char) :
    (LineIndex.ofText text).starts.Pairwise (· < ·) :=
  .cons (fun _ hs => startsAfter_gt hs) (startsAfter_sorted 0 text)

/-- The numbers up to a bound are a front of a sorted list. -/
theorem le_iff_lt_countP {starts : List Nat} (h : starts.Pairwise (· < ·)) (o : Nat) {i s : Nat}
    (hs : starts[i]? = some s) : s ≤ o ↔ i < starts.countP (· ≤ o) := by
  induction starts generalizing i with
  | nil => simp at hs
  | cons a as ih =>
    obtain ⟨ha, has⟩ := List.pairwise_cons.mp h
    have hfirst : ∀ b ∈ a :: as, a ≤ b := by
      intro b hb
      rcases List.mem_cons.mp hb with rfl | hb
      · exact Nat.le_refl b
      · exact Nat.le_of_lt (ha b hb)
    by_cases hle : a ≤ o
    · rw [List.countP_cons_of_pos (by simpa using hle)]
      cases i with
      | zero =>
        simp only [List.getElem?_cons_zero, Option.some.injEq] at hs
        simp [← hs, hle]
      | succ i =>
        rw [List.getElem?_cons_succ] at hs
        rw [ih has hs, Nat.succ_lt_succ_iff]
    · have hnone : (a :: as).countP (· ≤ o) = 0 := by
        rw [List.countP_eq_zero]
        intro b hb
        have := hfirst b hb
        simp only [decide_eq_true_eq]
        omega
      have := hfirst s (List.mem_of_getElem? hs)
      rw [hnone]
      omega

namespace LineIndex

variable {ix : LineIndex} {o : Nat}

theorem getElem?_starts {line : Nat} (h : line < ix.lineCount) :
    ix.starts[line]? = some (ix.start line) := by
  rw [start, List.getD_eq_getElem?_getD, List.getElem?_eq_getElem h]
  rfl

section
variable (hsorted : ix.starts.Pairwise (· < ·)) (hpos : 0 < ix.starts.countP (· ≤ o))
include hsorted hpos

theorem start_lineAt_le : ix.start (ix.starts.countP (· ≤ o) - 1) ≤ o := by
  have hcount : ix.starts.countP (· ≤ o) ≤ ix.lineCount := List.countP_le_length
  have hline : ix.starts.countP (· ≤ o) - 1 < ix.lineCount := by omega
  exact (le_iff_lt_countP hsorted o (getElem?_starts hline)).mpr (by omega)

theorem lineColToOffset_lineAt (ho : o ≤ ix.textLength) :
    ix.lineColToOffset ((ix.starts.countP (· ≤ o) - 1 : Nat) : Int)
      ((o - ix.start (ix.starts.countP (· ≤ o) - 1) : Nat) : Int) = o := by
  have hcount : ix.starts.countP (· ≤ o) ≤ ix.lineCount := List.countP_le_length
  have hle := start_lineAt_le hsorted hpos
  generalize hline : ix.starts.countP (· ≤ o) - 1 = line at hle
  have hlength : o - ix.start line ≤ ix.lineLength line := by
    unfold lineLength
    cases hnext : ix.starts[line + 1]? with
    | none => exact Nat.sub_le_sub_right ho _
    | some next =>
      have : ¬ next ≤ o := by
        rw [le_iff_lt_countP hsorted o hnext]
        omega
      show o - ix.start line ≤ next - 1 - ix.start line
      omega
  rw [lineColToOffset, clampTo_natCast (show line ≤ ix.lineCount - 1 by omega),
    clampTo_natCast hlength]
  omega

end

theorem countP_starts_pos (text : List Char) (o : Nat) : 0 < (ofText text).starts.countP (· ≤ o) := by
  rw [ofText, List.countP_cons_of_pos (by simp)]
  exact Nat.succ_pos _

theorem lineColToOffset_offsetToLineCol (text : List Char) {o : Nat} (ho : o ≤ text.length) :
    (ofText text).lineColToOffset ((ofText text).offsetToLineCol o).1
      ((ofText text).offsetToLineCol o).2 = o := by
  simp only [offsetToLineCol, show (ofText text).textLength = text.length from rfl,
    clampTo_natCast ho]
  exact lineColToOffset_lineAt (starts_sorted text) (countP_starts_pos text o) ho

theorem lineColToOffset_offsetToLineCol_eq_clampTo (text : List Char) (o : Int) :
    (ofText text).lineColToOffset ((ofText text).offsetToLineCol o).1
      ((ofText text).offsetToLineCol o).2 = clampTo text.length o := by
  have hin := clampTo_le text.length o
  have hsame : (ofText text).offsetToLineCol o =
      (ofText text).offsetToLineCol (clampTo text.length o) := by
    rw [offsetToLineCol_ofText, offsetToLineCol_ofText, clampTo_natCast hin]
  rw [hsame]
  exact lineColToOffset_offsetToLineCol text hin

end LineIndex

end Tablature
