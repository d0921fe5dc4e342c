import Tablature.Proofs.Notation.JoinedReading

/-!
# Where tokens begin

A token begins at ground level and outside of every string and comment, so a
reader that comes to its first character might as well begin there.
-/

namespace Tablature

def Reader.upTo : Reader → List Char → Nat → Reader
  | r, _, 0 => r
  | r, [], _ + 1 => r
  | r, c :: cs, n + 1 => (r.after cs.head? c).upTo cs n

def readerAt (text : List Char) (start o : Nat) : Reader :=
  Reader.initial.upTo (text.drop start) (o - start)

theorem Reader.upTo_zero (r : Reader) (cs : List Char) : r.upTo cs 0 = r := by
  cases cs <;> rfl

theorem Reader.upTo_add (r : Reader) (cs : List Char) (m n : Nat) :
    r.upTo cs (m + n) = (r.upTo cs m).upTo (cs.drop m) n := by
  induction cs generalizing r m with
  | nil =>
    cases m with
    | zero => rw [Nat.zero_add, List.drop_zero, upTo_zero]
    | succ m => cases n <;> rfl
  | cons c cs ih =>
    cases m with
    | zero => rw [Nat.zero_add, List.drop_zero, upTo_zero]
    | succ m =>
      rw [Nat.add_right_comm, upTo, List.drop_succ_cons, ih]
      rfl

/-! ## The reader behind a lexeme -/

section
variable {d : Depths} {cs : List Char} (n : Nat)

theorem upTo_string (h : (closeQuote cs).2 ≠ []) :
    (⟨.string, d.chord, d.brace⟩ : Reader).upTo cs ((closeQuote cs).1.length + n) =
      d.reader.upTo (closeQuote cs).2 n := by
  fun_induction closeQuote cs with
  | case1 => exact absurd rfl h
  | case2 => exact absurd rfl h
  | case3 c cs ih =>
    rw [← ih h, List.length_cons, List.length_cons, Nat.add_right_comm _ 1, Nat.add_right_comm _ 1]
    simp [Reader.upTo, Reader.after, Inside.read]
  | case4 cs =>
    rw [List.length_singleton, Nat.add_comm]
    simp [Reader.upTo, Reader.after, Inside.read, Depths.reader]
  | case5 c cs h₁ h₂ h₃ ih =>
    have hc := ne_backslash_of h₁ h₂
    have hc' : c ≠ '"' := h₃
    rw [← ih h, List.length_cons, Nat.add_right_comm _ 1]
    simp [Reader.upTo, Reader.after, Inside.read, hc, hc']

/-- The newline behind a line comment is the first character that is read outside of it. -/
theorem upTo_lineComment (h : cs.dropWhile (· != '\n') ≠ []) :
    (⟨.lineComment, d.chord, d.brace⟩ : Reader).upTo cs
        ((cs.takeWhile (· != '\n')).length + (n + 1)) =
      d.reader.upTo (cs.dropWhile (· != '\n')) (n + 1) := by
  induction cs with
  | nil => exact absurd rfl h
  | cons c cs ih =>
    by_cases hc : c = '\n'
    · subst hc
      simp [Reader.upTo, Reader.after, Inside.read, Depths.reader]
    · have hdrop : (c :: cs).dropWhile (· != '\n') = cs.dropWhile (· != '\n') := by simp [hc]
      have htake : (c :: cs).takeWhile (· != '\n') = c :: cs.takeWhile (· != '\n') := by simp [hc]
      rw [hdrop] at h ⊢
      rw [htake, ← ih h, List.length_cons, Nat.add_right_comm _ 1]
      simp [Reader.upTo, Reader.after, Inside.read, hc]

theorem upTo_blockComment (h : (closeBlock cs).2 ≠ []) :
    (⟨.blockComment, d.chord, d.brace⟩ : Reader).upTo cs ((closeBlock cs).1.length + n) =
      d.reader.upTo (closeBlock cs).2 n := by
  fun_induction closeBlock cs with
  | case1 => exact absurd rfl h
  | case2 cs =>
    rw [List.length_cons, List.length_singleton, Nat.add_comm]
    simp [Reader.upTo, Reader.after, Inside.read, Depths.reader]
  | case3 c cs hne ih =>
    rw [← ih h, List.length_cons, Nat.add_right_comm _ 1]
    simp [Reader.upTo, Reader.after, Inside.read, not_pair_of hne]

end

theorem ne_nil_of_lex {cs : List Char} {front back : List Lexeme} {x : Lexeme}
    (h : lex cs = front ++ x :: back) : cs ≠ [] := by
  rintro rfl
  simp [lex] at h

/-- What follows a line comment begins with a newline. -/
theorem lex_behind_lineComment {cs : List Char} {front back : List Lexeme} {x : Lexeme}
    (h : lex (cs.dropWhile (· != '\n')) = front ++ x :: back) (hx : x ≠ .code '\n') :
    ∃ n, (front.flatMap Lexeme.chars).length = n + 1 := by
  obtain ⟨c, rest, hrest⟩ := List.exists_cons_of_ne_nil (ne_nil_of_lex h)
  have hc : c = '\n' := by
    have := List.head?_dropWhile_not (· != '\n') cs
    rw [hrest] at this
    simpa using this
  subst hc
  have hlex : lex ('\n' :: rest) = .code '\n' :: lex rest := by simp [lex]
  rw [hrest, hlex] at h
  cases front with
  | nil => exact absurd (List.cons.inj h).1.symm hx
  | cons y front =>
    rw [← (List.cons.inj h).1, List.flatMap_cons, List.length_append, Nat.add_comm]
    exact ⟨_, rfl⟩

theorem upTo_lex {d : Depths} {cs : List Char} {front back : List Lexeme} {x : Lexeme}
    (h : lex cs = front ++ x :: back) (hx : x ≠ .code '\n') :
    d.reader.upTo cs (front.flatMap Lexeme.chars).length =
      (front.foldl Lexeme.depthsAfter d).reader := by
  fun_induction lex cs generalizing d front with
  | case1 => simp at h
  | case2 cs ih =>
    cases front with
    | nil => exact Reader.upTo_zero _ _
    | cons y front =>
      rw [List.cons_append, List.cons.injEq] at h
      obtain ⟨rfl, h⟩ := h
      rw [List.foldl_cons, ← ih h, List.flatMap_cons, List.length_append,
        ← upTo_string _ (ne_nil_of_lex h), Lexeme.chars, List.length_cons, Nat.add_right_comm _ 1]
      simp [Depths.reader, Reader.upTo, Reader.after, Inside.read, Lexeme.depthsAfter]
  | case3 cs ih =>
    cases front with
    | nil => exact Reader.upTo_zero _ _
    | cons y front =>
      rw [List.cons_append, List.cons.injEq] at h
      obtain ⟨rfl, h⟩ := h
      obtain ⟨n, hn⟩ := lex_behind_lineComment h hx
      rw [List.foldl_cons, ← ih h, List.flatMap_cons, List.length_append, hn,
        ← upTo_lineComment n (ne_nil_of_lex h), Lexeme.chars, List.length_cons, List.length_cons,
        Nat.add_right_comm _ 1, Nat.add_right_comm _ 1]
      simp [Depths.reader, Reader.upTo, Reader.after, Inside.read, Lexeme.depthsAfter]
  | case4 cs ih =>
    cases front with
    | nil => exact Reader.upTo_zero _ _
    | cons y front =>
      rw [List.cons_append, List.cons.injEq] at h
      obtain ⟨rfl, h⟩ := h
      rw [List.foldl_cons, ← ih h, List.flatMap_cons, List.length_append,
        ← upTo_blockComment _ (ne_nil_of_lex h), Lexeme.chars, List.length_cons, List.length_cons,
        Nat.add_right_comm _ 1, Nat.add_right_comm _ 1]
      simp [Depths.reader, Reader.upTo, Reader.after, Inside.read, Lexeme.depthsAfter]
  | case5 c cs h₁ h₂ h₃ ih =>
    cases front with
    | nil => exact Reader.upTo_zero _ _
    | cons y front =>
      rw [List.cons_append, List.cons.injEq] at h
      obtain ⟨rfl, h⟩ := h
      rw [List.foldl_cons, ← ih h, List.flatMap_cons, List.length_append, Lexeme.chars,
        List.length_singleton, Nat.add_comm 1]
      rw [Depths.reader, Reader.upTo, Reader.after, read_code h₁ h₂ h₃]
      simp only [Lexeme.depthsAfter, Depths.reader, Depths.after_chord, Depths.after_brace]

/-! ## The open token -/

theorem Depths.eq_ground {d : Depths} (h : d.isGround = true) : d = .ground := by
  obtain ⟨chord, brace⟩ := d
  simpa [isGround, ground] using h

theorem Lexeme.ne_newline_of_notation {x : Lexeme} {d : Depths}
    (h : ∀ p ∈ x.places d, p.isNotation = true) : x ≠ .code '\n' := by
  rintro rfl
  have := h ⟨'\n', .code, d.chord, d.brace⟩ (by simp [places, chars, role])
  exact absurd this (by simp [Place.isNotation, show isBlank '\n' = true by decide])

namespace Scan

variable {s : Scan} {P : Nat → Prop}

/-- Inside brackets a token is open, and the open token begins where it may. -/
structure Opens (P : Nat → Prop) (s : Scan) : Prop where
  start : ∀ t, s.token = some t → P t.start
  grouped : s.depths.isGround = false → s.token.isSome = true

theorem Opens.closed (hs : s.Opens P) {start stop : Nat} (hm : .token start stop ∈ s.closed) :
    P start := by
  unfold Scan.closed at hm
  split at hm
  · rename_i t ht
    cases List.mem_singleton.mp hm
    exact hs.start t ht
  · cases hm

theorem Opens.close (hground : s.depths.isGround = true) : s.close.Opens P where
  start := by
    intro t ht
    cases ht
  grouped := by
    intro hgrouped
    rw [show s.close.depths = s.depths from rfl, hground] at hgrouped
    cases hgrouped

theorem Opens.grow (hs : s.Opens P) {i : Nat} {x : Lexeme}
    (hi : s.depths.isGround = true → P i) : (s.grow i x).Opens P where
  start := by
    intro t ht
    cases ht
    cases htoken : s.token with
    | some t => simpa [htoken] using hs.start t htoken
    | none =>
      have hground : s.depths.isGround = true := by
        rw [← Bool.not_eq_false]
        intro hgrouped
        have := hs.grouped hgrouped
        simp [htoken] at this
      simpa [htoken] using hi hground
  grouped := fun _ => rfl

/-- Tokens begin at ground level, at a lexeme that is no newline. -/
theorem Opens.step (hs : s.Opens P) {i : Nat} {x : Lexeme}
    (hi : s.depths.isGround = true → x ≠ .code '\n' → P i) :
    (s.step i x).1.Opens P ∧ ∀ start stop, .token start stop ∈ (s.step i x).2 → P start := by
  have hnone : ∀ start stop, .token start stop ∈ ([] : List Mark) → P start := by
    intro start stop hm
    cases hm
  have hmoves := s.step_moves i x
  generalize s.step i x = r at hmoves
  cases hmoves with
  | pass hground hx => exact ⟨hs, hnone⟩
  | part hground hx => exact ⟨.close hground, fun start stop hm => hs.closed hm⟩
  | bar hground hx =>
    refine ⟨.close hground, fun start stop hm => ?_⟩
    rcases List.mem_append.mp hm with hm | hm
    · exact hs.closed hm
    · cases List.mem_singleton.mp hm
  | grow hx hopen =>
    exact ⟨hs.grow fun hground => hi hground (Lexeme.ne_newline_of_notation hx), hnone⟩
  | renew hground hx hclose =>
    subst hx
    have hclosed : s.close.Opens P := .close hground
    exact ⟨hclosed.grow fun _ => hi hground (by simp), fun start stop hm => hs.closed hm⟩

theorem Opens.marks (hs : s.Opens P) {i : Nat} {xs : List Lexeme}
    (hP : ∀ front x back, xs = front ++ x :: back → x ≠ .code '\n' →
      front.foldl Lexeme.depthsAfter s.depths = .ground →
      P (i + (front.flatMap Lexeme.chars).length)) {start stop : Nat}
    (hm : .token start stop ∈ s.marks i xs) : P start := by
  induction xs generalizing s i with
  | nil => exact hs.closed hm
  | cons x xs ih =>
    have hi : s.depths.isGround = true → x ≠ .code '\n' → P i := by
      intro hground hx
      exact hP [] x xs rfl hx (Depths.eq_ground hground)
    obtain ⟨hstep, hleft⟩ := hs.step hi
    rcases List.mem_append.mp hm with hm | hm
    · exact hleft start stop hm
    · refine ih hstep (fun front y back hxs hy hground => ?_) hm
      have := hP (x :: front) y back (by rw [hxs]; rfl) hy (by rwa [List.foldl_cons, ← step_depths s i])
      rwa [List.flatMap_cons, List.length_append, ← Nat.add_assoc] at this

end Scan

theorem mem_tokenSpans {ms : List Mark} {t : Nat × Nat} :
    t ∈ tokenSpans ms ↔ .token t.1 t.2 ∈ ms := by
  rw [tokenSpans, List.mem_filterMap]
  constructor
  · rintro ⟨m, hm, ht⟩
    cases m with
    | bar => cases ht
    | token start stop =>
      cases ht
      exact hm
  · intro hm
    exact ⟨_, hm, rfl⟩

/-- Nothing is open in front of a token. -/
theorem readerAt_token {text : List Char} {start : Nat} {t : Nat × Nat}
    (ht : t ∈ tokenSpans (marksFrom text start)) : readerAt text start t.1 = .initial := by
  have hinitial : Scan.initial.Opens fun o => readerAt text start o = .initial := by
    constructor
    · intro t ht
      cases ht
    · intro hgrouped
      cases hgrouped
  refine hinitial.marks (fun front x back hlex hx hground => ?_) (mem_tokenSpans.mp ht)
  have hreader := upTo_lex (d := .ground) hlex hx
  rw [show front.foldl Lexeme.depthsAfter .ground = .ground from hground] at hreader
  rw [readerAt, Nat.add_sub_cancel_left]
  exact hreader

/-! ## Reading on behind a token's front -/

theorem Inside.read_next {c : Char} (hslash : c ≠ '/') (hstar : c ≠ '*') (next? : Option Char)
    (inside : Inside) : inside.read next? c = inside.read none c := by
  cases inside <;> simp [read, hslash, hstar]

/-- The character ahead matters only behind a slash or a star. -/
theorem Reader.upTo_eq_afterAll (r : Reader) {cs : List Char} {n : Nat}
    (h : ∀ c, (cs.take n).getLast? = some c → c ≠ '/' ∧ c ≠ '*') :
    r.upTo cs n = r.afterAll (cs.take n) := by
  induction cs generalizing r n with
  | nil => cases n <;> rfl
  | cons c cs ih =>
    cases n with
    | zero => rfl
    | succ n =>
      rw [List.take_succ_cons] at h ⊢
      rw [upTo, afterAll]
      cases n with
      | zero =>
        obtain ⟨hslash, hstar⟩ := h c rfl
        have hafter : r.after cs.head? c = r.after none c := by
          rw [after, after, Inside.read_next hslash hstar]
        rw [hafter, upTo_zero]
        rfl
      | succ n =>
        rw [List.head?_take, if_neg (Nat.succ_ne_zero n)]
        refine ih _ fun d hd => h d ?_
        rw [List.getLast?_cons, hd]
        rfl

end Tablature
