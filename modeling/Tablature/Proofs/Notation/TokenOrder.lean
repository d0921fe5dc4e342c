import Tablature.Notation.Lexeme
import Tablature.Notation.Mark

/-!
# The order of tokens

A scan leaves its tokens in the order of the text. No token is empty, none
reaches into the next one, and all lie between the offset where the scan began
and the end of the text.
-/

namespace Tablature

theorem length_pos_of_mem_lex {cs : List Char} {x : Lexeme} (h : x ∈ lex cs) : 0 < x.length := by
  fun_induction lex cs with
  | case1 => cases h
  | case2 cs ih =>
    rcases List.mem_cons.mp h with rfl | h
    · exact Nat.succ_pos _
    · exact ih h
  | case3 cs ih =>
    rcases List.mem_cons.mp h with rfl | h
    · exact Nat.succ_pos _
    · exact ih h
  | case4 cs ih =>
    rcases List.mem_cons.mp h with rfl | h
    · exact Nat.succ_pos _
    · exact ih h
  | case5 c cs _ _ _ ih =>
    rcases List.mem_cons.mp h with rfl | h
    · exact Nat.succ_pos _
    · exact ih h

/-! ## Marks laid out in order -/

/-- The tokens among the marks stand in order and apart between two offsets. -/
def Laid : (lo : Nat) → List Mark → (hi : Nat) → Prop
  | lo, [], hi => lo ≤ hi
  | lo, .bar :: ms, hi => Laid lo ms hi
  | lo, .token start stop :: ms, hi => lo ≤ start ∧ start < stop ∧ Laid stop ms hi

theorem Laid.le {ms : List Mark} {lo hi : Nat} (h : Laid lo ms hi) : lo ≤ hi := by
  induction ms generalizing lo with
  | nil => exact h
  | cons m ms ih =>
    cases m with
    | bar => exact ih h
    | token start stop =>
      obtain ⟨h₁, h₂, h₃⟩ := h
      have := ih h₃
      omega

theorem Laid.from_front {ms : List Mark} {lo mid hi : Nat} (h : lo ≤ mid) (h' : Laid mid ms hi) :
    Laid lo ms hi := by
  induction ms with
  | nil => exact Nat.le_trans h h'
  | cons m ms ih =>
    cases m with
    | bar => exact ih h'
    | token start stop => exact ⟨Nat.le_trans h h'.1, h'.2⟩

theorem Laid.append {ms ms' : List Mark} {lo mid hi : Nat} (h : Laid lo ms mid)
    (h' : Laid mid ms' hi) : Laid lo (ms ++ ms') hi := by
  induction ms generalizing lo with
  | nil => exact h'.from_front h
  | cons m ms ih =>
    cases m with
    | bar => exact ih h
    | token start stop => exact ⟨h.1, h.2.1, ih h.2.2⟩

theorem Laid.stop_le {ms : List Mark} {lo hi start stop : Nat} (h : Laid lo ms hi)
    (hm : .token start stop ∈ ms) : stop ≤ hi := by
  induction ms generalizing lo with
  | nil => cases hm
  | cons m ms ih =>
    cases m with
    | bar =>
      rcases List.mem_cons.mp hm with hm | hm
      · cases hm
      · exact ih h hm
    | token =>
      rcases List.mem_cons.mp hm with hm | hm
      · cases hm
        exact h.2.2.le
      · exact ih h.2.2 hm

/-! ## The open token of a scan -/

namespace Scan

def Holds (s : Scan) (lo hi : Nat) : Prop :=
  match s.token with
  | none => lo ≤ hi
  | some t => lo ≤ t.start ∧ t.start < t.stop ∧ t.stop ≤ hi

theorem Holds.mono {s : Scan} {lo hi hi' : Nat} (h : s.Holds lo hi) (hle : hi ≤ hi') :
    s.Holds lo hi' := by
  unfold Holds at h ⊢
  split at h <;> omega

theorem Holds.closed {s : Scan} {lo hi : Nat} (h : s.Holds lo hi) : Laid lo s.closed hi := by
  unfold Holds at h; unfold Scan.closed
  cases ht : s.token with
  | none => rw [ht] at h; exact h
  | some t => rw [ht] at h; exact h

theorem holds_close (s : Scan) {lo hi : Nat} (h : lo ≤ hi) : s.close.Holds lo hi := h

theorem Holds.extend {s : Scan} {lo i j : Nat} (h : s.Holds lo i) (hij : i < j) (e : Bool) :
    (s.extend i j e).Holds lo j := by
  unfold Holds at h
  show lo ≤ (s.token.map OpenToken.start).getD i ∧ (s.token.map OpenToken.start).getD i < j ∧ j ≤ j
  cases ht : s.token with
  | none => rw [ht] at h; exact ⟨h, hij, Nat.le_refl _⟩
  | some t => rw [ht] at h; exact ⟨h.1, Nat.lt_of_lt_of_le h.2.1 (by omega), Nat.le_refl _⟩

theorem Holds.take {s : Scan} {lo i : Nat} (h : s.Holds lo i) (c : Char) :
    (s.take i c).Holds lo (i + 1) :=
  Holds.extend (s := { s with depths := s.depths.after c }) h (Nat.lt_succ_self i) _

/-! ## Steps and runs -/

theorem Holds.step_code {s : Scan} {lo i : Nat} (h : s.Holds lo i) (c : Char) :
    ∃ mid, Laid lo (s.step i (.code c)).2 mid ∧ (s.step i (.code c)).1.Holds mid (i + 1) := by
  have hi : i ≤ i + 1 := Nat.le_succ i
  unfold step
  dsimp only
  split
  · refine ⟨lo, Nat.le_refl lo, ?_⟩
    by_cases hb : isBlank c = true
    · rw [if_pos hb]; exact h.mono hi
    · rw [if_neg hb]; exact h.take c
  · split
    · exact ⟨i, h.closed.append (show Laid i [.bar] i from Nat.le_refl i), s.holds_close hi⟩
    · split
      · exact ⟨i, h.closed, s.holds_close hi⟩
      · split
        · exact ⟨i, h.closed, (s.holds_close (Nat.le_refl i)).take c⟩
        · exact ⟨lo, Nat.le_refl lo, h.take c⟩

theorem Holds.step {s : Scan} {lo i : Nat} (h : s.Holds lo i) {x : Lexeme} (hx : 0 < x.length) :
    ∃ mid, Laid lo (s.step i x).2 mid ∧ (s.step i x).1.Holds mid (i + x.length) := by
  have hi : i ≤ i + x.length := Nat.le_add_right i _
  have comment : ∃ mid, Laid lo (if s.depths.isGround then (s.close, s.closed) else (s, [])).2 mid ∧
      (if s.depths.isGround then (s.close, s.closed) else (s, [])).1.Holds mid (i + x.length) := by
    split
    · exact ⟨i, h.closed, s.holds_close hi⟩
    · exact ⟨lo, Nat.le_refl lo, h.mono hi⟩
  cases x with
  | quoted cs => exact ⟨lo, Nat.le_refl lo, h.extend (Nat.lt_add_of_pos_right hx) false⟩
  | lineComment cs => exact comment
  | blockComment cs => exact comment
  | code c => exact h.step_code c

theorem Holds.marks {s : Scan} {lo i : Nat} (h : s.Holds lo i) {xs : List Lexeme}
    (hxs : ∀ x ∈ xs, 0 < x.length) :
    Laid lo (s.marks i xs) (i + (xs.flatMap Lexeme.chars).length) := by
  induction xs generalizing s lo i with
  | nil => exact h.closed
  | cons x xs ih =>
    obtain ⟨mid, hms, hs⟩ := h.step (hxs x (List.mem_cons_self ..))
    have := ih hs fun y hy => hxs y (List.mem_cons_of_mem _ hy)
    rw [List.flatMap_cons, List.length_append, ← Nat.add_assoc]
    exact hms.append this

end Scan

theorem marksFrom_laid {text : List Char} {start : Nat} (h : start ≤ text.length) :
    Laid start (marksFrom text start) text.length := by
  have hs : Scan.initial.Holds start start := Nat.le_refl start
  have := hs.marks fun x (hx : x ∈ lex (text.drop start)) => length_pos_of_mem_lex hx
  rw [flatMap_chars_lex, List.length_drop, Nat.add_sub_of_le h] at this
  exact this

/-! ## Where the notation begins -/

theorem afterHeaderDot?_le {xs : List Lexeme} {afterDigit : Bool} {i n : Nat}
    (h : afterHeaderDot? afterDigit i xs = some n) : n ≤ i + (xs.flatMap Lexeme.chars).length := by
  induction xs generalizing afterDigit i with
  | nil => cases h
  | cons x xs ih =>
    rw [List.flatMap_cons, List.length_append]
    unfold afterHeaderDot? at h
    split at h
    · rename_i hd
      simp only [Bool.and_eq_true, decide_eq_true_eq] at hd
      obtain ⟨⟨rfl, _⟩, _⟩ := hd
      cases h
      simp [Lexeme.chars]
    · have := ih h
      rw [Lexeme.length] at this
      omega

theorem firstContent?_le {xs : List Lexeme} {i n : Nat} (h : firstContent? i xs = some n) :
    n ≤ i + (xs.flatMap Lexeme.chars).length := by
  induction xs generalizing i with
  | nil => cases h
  | cons x xs ih =>
    rw [List.flatMap_cons, List.length_append]
    unfold firstContent? at h
    split at h
    · cases h; omega
    · have := ih h
      rw [Lexeme.length] at this
      omega

theorem startOfContent_le (text : List Char) : startOfContent text ≤ text.length := by
  have hlen : 0 + ((lex text).flatMap Lexeme.chars).length = text.length := by
    rw [flatMap_chars_lex, Nat.zero_add]
  show ((afterHeaderDot? false 0 (lex text)).or (firstContent? 0 (lex text))).getD text.length ≤ _
  cases hd : afterHeaderDot? false 0 (lex text) with
  | some n => exact hlen ▸ afterHeaderDot?_le hd
  | none =>
    cases hc : firstContent? 0 (lex text) with
    | some n => exact hlen ▸ firstContent?_le hc
    | none => exact Nat.le_refl _

end Tablature
