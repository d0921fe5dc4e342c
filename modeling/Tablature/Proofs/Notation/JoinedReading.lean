import Tablature.Proofs.Notation.TokenRuns

/-!
# Texts joined at a bar line

If a reader is inside of nothing at the end of a text, then what follows is lexed
as a text of its own, unless its first character goes together with a slash at
the end. If no bracket is open either and a bar line follows, a new scan begins
behind it. The offset at which a scan begins moves its marks and nothing else.
-/

namespace Tablature

/-- The reader behind a text, with no character in sight at its end. -/
def Reader.afterAll : Reader → List Char → Reader
  | r, [] => r
  | r, c :: cs => (r.after cs.head? c).afterAll cs

def Depths.reader (d : Depths) : Reader := ⟨.nothing, d.chord, d.brace⟩

/-! ## Lexemes of joined texts -/

section
variable {d : Depths} {cs : List Char} (rest : List Char)

theorem string_closes (h : ((⟨.string, d.chord, d.brace⟩ : Reader).afterAll cs).inside = .nothing) :
    (⟨.string, d.chord, d.brace⟩ : Reader).afterAll cs = d.reader.afterAll (closeQuote cs).2 ∧
      closeQuote (cs ++ rest) = ((closeQuote cs).1, (closeQuote cs).2 ++ rest) := by
  fun_induction closeQuote cs with
  | case1 => cases h
  | case2 => simp [Reader.afterAll, Reader.after, Inside.read] at h
  | case3 c cs ih =>
    have hstep : (⟨.string, d.chord, d.brace⟩ : Reader).afterAll ('\\' :: c :: cs) =
        (⟨.string, d.chord, d.brace⟩ : Reader).afterAll cs := by
      simp [Reader.afterAll, Reader.after, Inside.read]
    rw [hstep] at h ⊢
    obtain ⟨hreader, hclose⟩ := ih h
    exact ⟨hreader, by simp [closeQuote, hclose]⟩
  | case4 cs =>
    simp [Reader.afterAll, Reader.after, Inside.read, closeQuote, Depths.reader]
  | case5 c cs h₁ h₂ h₃ ih =>
    have hc := ne_backslash_of h₁ h₂
    have hstep : (⟨.string, d.chord, d.brace⟩ : Reader).afterAll (c :: cs) =
        (⟨.string, d.chord, d.brace⟩ : Reader).afterAll cs := by
      simp [Reader.afterAll, Reader.after, Inside.read, hc, show c ≠ '"' from h₃]
    rw [hstep] at h ⊢
    obtain ⟨hreader, hclose⟩ := ih h
    exact ⟨hreader, by simp [closeQuote, hc, hclose]⟩

theorem lineComment_closes
    (h : ((⟨.lineComment, d.chord, d.brace⟩ : Reader).afterAll cs).inside = .nothing) :
    (⟨.lineComment, d.chord, d.brace⟩ : Reader).afterAll cs =
        d.reader.afterAll (cs.dropWhile (· != '\n')) ∧
      (cs ++ rest).takeWhile (· != '\n') = cs.takeWhile (· != '\n') ∧
      (cs ++ rest).dropWhile (· != '\n') = cs.dropWhile (· != '\n') ++ rest := by
  induction cs with
  | nil => cases h
  | cons c cs ih =>
    by_cases hc : c = '\n'
    · subst hc
      simp [Reader.afterAll, Reader.after, Inside.read, Depths.reader]
    · have hstep : (⟨.lineComment, d.chord, d.brace⟩ : Reader).afterAll (c :: cs) =
          (⟨.lineComment, d.chord, d.brace⟩ : Reader).afterAll cs := by
        simp [Reader.afterAll, Reader.after, Inside.read, hc]
      rw [hstep] at h ⊢
      simpa [hc] using ih h

theorem blockComment_closes
    (h : ((⟨.blockComment, d.chord, d.brace⟩ : Reader).afterAll cs).inside = .nothing) :
    (⟨.blockComment, d.chord, d.brace⟩ : Reader).afterAll cs =
        d.reader.afterAll (closeBlock cs).2 ∧
      closeBlock (cs ++ rest) = ((closeBlock cs).1, (closeBlock cs).2 ++ rest) := by
  fun_induction closeBlock cs with
  | case1 => cases h
  | case2 cs =>
    simp [Reader.afterAll, Reader.after, Inside.read, closeBlock, Depths.reader]
  | case3 c cs hne ih =>
    have hstep : (⟨.blockComment, d.chord, d.brace⟩ : Reader).afterAll (c :: cs) =
        (⟨.blockComment, d.chord, d.brace⟩ : Reader).afterAll cs := by
      simp [Reader.afterAll, Reader.after, Inside.read, not_pair_of hne]
    rw [hstep] at h ⊢
    obtain ⟨hreader, hclose⟩ := ih h
    refine ⟨hreader, ?_⟩
    cases cs with
    | nil => cases h
    | cons e es =>
      -- the character behind `c` is the same one in the joined text
      have hne' : ∀ ds, c = '*' → e :: (es ++ rest) = '/' :: ds → False := by
        intro ds hc hcons
        exact hne es hc (by rw [(List.cons.inj hcons).1])
      rw [List.cons_append, List.cons_append, closeBlock.eq_3 _ _ hne', ← List.cons_append, hclose]

/-- Only a slash could begin a comment at the end of the first text. -/
theorem lex_append (h : (d.reader.afterAll cs).inside = .nothing) (hslash : rest.head? ≠ some '/')
    (hstar : rest.head? ≠ some '*') :
    lex (cs ++ rest) = lex cs ++ lex rest ∧
      d.reader.afterAll cs = ((lex cs).foldl Lexeme.depthsAfter d).reader := by
  fun_induction lex cs generalizing d with
  | case1 => exact ⟨rfl, rfl⟩
  | case2 cs ih =>
    have hstep : d.reader.afterAll ('"' :: cs) =
        (⟨.string, d.chord, d.brace⟩ : Reader).afterAll cs := by
      simp [Depths.reader, Reader.afterAll, Reader.after, Inside.read]
    rw [hstep] at h ⊢
    obtain ⟨hreader, hclose⟩ := string_closes rest h
    rw [hreader] at h ⊢
    obtain ⟨hlex, hdepths⟩ := ih h
    refine ⟨?_, hdepths⟩
    rw [List.cons_append, lex, hclose, hlex, List.cons_append]
  | case3 cs ih =>
    have hstep : d.reader.afterAll ('/' :: '/' :: cs) =
        (⟨.lineComment, d.chord, d.brace⟩ : Reader).afterAll cs := by
      simp [Depths.reader, Reader.afterAll, Reader.after, Inside.read]
    rw [hstep] at h ⊢
    obtain ⟨hreader, htake, hdrop⟩ := lineComment_closes rest h
    rw [hreader] at h ⊢
    obtain ⟨hlex, hdepths⟩ := ih h
    refine ⟨?_, hdepths⟩
    rw [List.cons_append, List.cons_append, lex, htake, hdrop, hlex, List.cons_append]
  | case4 cs ih =>
    have hstep : d.reader.afterAll ('/' :: '*' :: cs) =
        (⟨.blockComment, d.chord, d.brace⟩ : Reader).afterAll cs := by
      simp [Depths.reader, Reader.afterAll, Reader.after, Inside.read]
    rw [hstep] at h ⊢
    obtain ⟨hreader, hclose⟩ := blockComment_closes rest h
    rw [hreader] at h ⊢
    obtain ⟨hlex, hdepths⟩ := ih h
    refine ⟨?_, hdepths⟩
    rw [List.cons_append, List.cons_append, lex, hclose, hlex, List.cons_append]
  | case5 c cs h₁ h₂ h₃ ih =>
    have hstep : d.reader.afterAll (c :: cs) = (d.after c).reader.afterAll cs := by
      rw [Depths.reader, Reader.afterAll, Reader.after, read_code h₁ h₂ h₃, Depths.reader,
        d.after_chord, d.after_brace]
    rw [hstep] at h ⊢
    obtain ⟨hlex, hdepths⟩ := ih h
    refine ⟨?_, hdepths⟩
    have hnot : ∀ b, (∀ ds, c = '/' → cs = b :: ds → False) → rest.head? ≠ some b →
        ∀ ds, c = '/' → cs ++ rest = b :: ds → False := by
      intro b hcs hrest ds hc hjoin
      cases cs with
      | nil =>
        rw [List.nil_append] at hjoin
        exact hrest (by rw [hjoin, List.head?_cons])
      | cons e es => exact hcs es hc (by rw [(List.cons.inj hjoin).1])
    rw [List.cons_append, lex.eq_5 _ _ h₁ (hnot _ h₂ hslash) (hnot _ h₃ hstar), hlex,
      List.cons_append]

end

/-! ## The scan behind a bar line -/

theorem Scan.marks_append_bar {s : Scan} {xs : List Lexeme}
    (h : xs.foldl Lexeme.depthsAfter s.depths = .ground) (i : Nat) (ys : List Lexeme) :
    s.marks i (xs ++ .code '|' :: ys) =
      s.marks i xs ++ .bar :: initial.marks (i + (xs.flatMap Lexeme.chars).length + 1) ys := by
  induction xs generalizing s i with
  | nil =>
    have hdepths : s.depths = .ground := h
    have hclose : s.close = initial := by rw [close, hdepths]; rfl
    have hstep : s.step i (.code '|') = (initial, s.closed ++ [.bar]) := by
      rw [← hclose, step, hdepths]
      rfl
    rw [List.nil_append, marks, marks, hstep, List.append_assoc]
    rfl
  | cons x xs ih =>
    have hrest : xs.foldl Lexeme.depthsAfter (s.step i x).1.depths = .ground := by
      rw [step_depths]
      exact h
    rw [List.cons_append, marks, marks, ih hrest, List.append_assoc, List.flatMap_cons,
      List.length_append, ← Nat.add_assoc i]
    rfl

/-! ## A scan that begins elsewhere -/

section
variable (k : Nat)

def OpenToken.moved (t : OpenToken) : OpenToken :=
  { t with start := t.start + k, stop := t.stop + k }

def Mark.moved : Mark → Mark
  | .token start stop => .token (start + k) (stop + k)
  | .bar => .bar

@[simp] theorem Mark.moved_zero : Mark.moved 0 = id := by
  funext m
  cases m <;> rfl

namespace Scan

def moved (s : Scan) : Scan := { s with token := s.token.map (OpenToken.moved k) }

variable (s : Scan)

@[simp] theorem moved_depths : (s.moved k).depths = s.depths := rfl

@[simp] theorem moved_close : (s.moved k).close = s.close.moved k := rfl

theorem moved_closed : (s.moved k).closed = s.closed.map (Mark.moved k) := by
  obtain ⟨d, token⟩ := s
  cases token with
  | none => rfl
  | some t => rfl

theorem moved_endsChord :
    (s.moved k).token.any OpenToken.endsChord = s.token.any OpenToken.endsChord := by
  obtain ⟨d, token⟩ := s
  cases token with
  | none => rfl
  | some t => rfl

theorem moved_extend (start stop : Nat) (endsChord : Bool) :
    (s.moved k).extend (start + k) (stop + k) endsChord =
      (s.extend start stop endsChord).moved k := by
  obtain ⟨d, token⟩ := s
  cases token with
  | none => rfl
  | some t => rfl

theorem moved_take (i : Nat) (c : Char) : (s.moved k).take (i + k) c = (s.take i c).moved k := by
  unfold take
  rw [Nat.add_right_comm]
  exact moved_extend k { s with depths := s.depths.after c } i (i + 1) (c == ')')

theorem moved_step (i : Nat) (x : Lexeme) :
    (s.moved k).step (i + k) x = ((s.step i x).1.moved k, (s.step i x).2.map (Mark.moved k)) := by
  cases x with
  | quoted cs =>
    unfold step
    dsimp only
    rw [Nat.add_right_comm, moved_extend]
    rfl
  | lineComment cs | blockComment cs =>
    unfold step
    dsimp only
    rw [moved_depths, moved_close, moved_closed]
    split <;> rfl
  | code c =>
    unfold step
    dsimp only
    rw [moved_depths, moved_close, moved_closed, moved_endsChord, moved_take, moved_take]
    split
    · split <;> rfl
    · split
      · rw [List.map_append]
        rfl
      · split
        · rfl
        · split <;> rfl

theorem moved_marks (i : Nat) (xs : List Lexeme) :
    (s.moved k).marks (i + k) xs = (s.marks i xs).map (Mark.moved k) := by
  induction xs generalizing s i with
  | nil => exact s.moved_closed k
  | cons x xs ih => rw [marks, marks, moved_step, List.map_append, Nat.add_right_comm, ih]

end Scan

end

/-! ## Marks of joined texts -/

theorem marksFrom_append_bar {front : List Char} {start : Nat} (hstart : start ≤ front.length)
    (h : Reader.initial.afterAll (front.drop start) = .initial) (back : List Char) :
    marksFrom (front ++ '|' :: back) start =
      marksFrom front start ++ .bar :: (marksFrom back 0).map (Mark.moved (front.length + 1)) := by
  have hinside : (Depths.ground.reader.afterAll (front.drop start)).inside = .nothing :=
    congrArg Reader.inside h
  obtain ⟨hlex, hreader⟩ := lex_append ('|' :: back) hinside (by simp) (by simp)
  have hground : (lex (front.drop start)).foldl Lexeme.depthsAfter Scan.initial.depths = .ground := by
    have hdepths := hreader.symm.trans h
    injection hdepths with _ hchord hbrace
    exact Depths.mk.injEq .. ▸ ⟨hchord, hbrace⟩
  have hbar : lex ('|' :: back) = .code '|' :: lex back := by
    simp [lex]
  have hlength : start + ((lex (front.drop start)).flatMap Lexeme.chars).length + 1 =
      0 + (front.length + 1) := by
    rw [flatMap_chars_lex, List.length_drop]
    omega
  rw [marksFrom, List.drop_append_of_le_length hstart, hlex, hbar, Scan.marks_append_bar hground,
    hlength]
  rw [marksFrom, marksFrom, List.drop_zero, ← Scan.moved_marks]
  rfl

end Tablature
