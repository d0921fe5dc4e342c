import Tablature.Proofs.Notation.LexemePlaces

/-!
# The loop of a scan

Each turn of the loop reads the lexeme at the offset that the scan has come to
and goes on behind it, so the offset rises and stays within the text. An open
token is not empty and ends in front of the offset; at ground level it ends there,
so what it ends with is the last character read.
-/

namespace Tablature

/-! ## What a token ends with -/

section
variable {text : List Char} {i : Nat} {x : Lexeme} {xs : List Lexeme}
  (hx : lex (text.drop i) = x :: xs)
include hx

theorem getElem?_last_of_lex : text[i + x.length - 1]? = x.chars.getLast? := by
  have hpos := (lex_drop_bounds hx).1
  have hlast : i + x.length - 1 = i + (x.chars.length - 1) := by
    rw [Lexeme.length] at hpos ⊢
    omega
  rw [hlast, ← List.getElem?_drop, (lex_drop hx).1, List.getLast?_eq_getElem?]
  exact List.getElem?_append_left (Nat.sub_lt hpos Nat.one_pos)

/-- A string that the text goes on behind ends with its quote. -/
theorem closesChord_iff (hrole : x.role ≠ .comment) (hrest : xs ≠ []) :
    x.closesChord = true ↔ text[i + x.length - 1]? = some ')' := by
  obtain ⟨-, hxs, hbefore⟩ := lex_drop hx
  have hne : text.drop (i + x.length) ≠ [] := by
    intro hnil
    rw [hnil] at hxs
    exact hrest (hxs.trans (by simp [lex]))
  rw [getElem?_last_of_lex hx]
  cases hbefore with
  | quoted hclosed =>
    simp [Lexeme.closesChord, Lexeme.chars, List.getLast?_cons, hclosed hne]
  | code => simp [Lexeme.closesChord, Lexeme.chars]
  | _ => exact absurd rfl hrole

theorem role_ne_comment {d : Depths} (h : ∀ p ∈ x.places d, p.isNotation = true) :
    x.role ≠ .comment := by
  intro hrole
  have hne : x.chars ≠ [] := List.length_pos_iff.mp (lex_drop_bounds hx).1
  obtain ⟨c, hc⟩ := List.exists_mem_of_ne_nil _ hne
  have := h _ (List.mem_map_of_mem hc)
  rw [hrole] at this
  cases this

/-- The mark for a chord that has ended agrees with the character that the token ends with. -/
def Scan.TellsChord (text : List Char) (s : Scan) : Prop :=
  ∀ o, s.token = some o → (o.endsChord = true ↔ text[o.stop - 1]? = some ')')

theorem Scan.tellsChord_grow (s : Scan) (hrole : x.role ≠ .comment) (hrest : xs ≠ []) :
    (s.grow i x).TellsChord text := by
  rintro o ⟨⟩
  exact closesChord_iff hx hrole hrest

theorem Scan.TellsChord.step {s : Scan} (h : s.TellsChord text) (hrest : xs ≠ []) :
    (s.step i x).1.TellsChord text := by
  have hmoves := s.step_moves i x
  generalize s.step i x = r at hmoves
  cases hmoves with
  | pass hground hp => exact h
  | part hground hp => exact nofun
  | bar hground hbar => exact nofun
  | grow hp hopen => exact s.tellsChord_grow hx (role_ne_comment hx hp) hrest
  | renew hground hopen hclose =>
    subst hopen
    exact s.close.tellsChord_grow hx nofun hrest

end

/-! ## Turns -/

structure Turn where
  offset : Nat
  scan : Scan
  rest : List Lexeme

namespace Turn

inductive Next : Turn → Turn → Prop
  | read (i : Nat) (s : Scan) (x : Lexeme) (xs : List Lexeme) :
      Next ⟨i, s, x :: xs⟩ ⟨i + x.length, (s.step i x).1, xs⟩

inductive Reached (text : List Char) (start : Nat) : Turn → Prop
  | first : Reached text start ⟨start, .initial, lex (text.drop start)⟩
  | next {t u : Turn} (h : Reached text start t) (hnext : t.Next u) : Reached text start u

namespace Reached

variable {text : List Char} {start : Nat} {t : Turn} (h : Reached text start t)
include h

theorem marks : ∃ done, marksFrom text start = done ++ t.scan.marks t.offset t.rest := by
  induction h with
  | first => exact ⟨[], rfl⟩
  | next _ hnext ih =>
    cases hnext with
    | read i s x xs =>
      obtain ⟨done, hdone⟩ := ih
      exact ⟨done ++ (s.step i x).2, by rw [hdone, Scan.marks, List.append_assoc]⟩

theorem rest_eq : t.rest = lex (text.drop t.offset) := by
  induction h with
  | first => rfl
  | next _ hnext ih =>
    cases hnext with
    | read i s x xs => exact (lex_drop ih.symm).2.1

theorem offset_le (hstart : start ≤ text.length) : t.offset ≤ text.length := by
  induction h with
  | first => exact hstart
  | next hreached hnext ih =>
    cases hnext with
    | read i s x xs => exact (lex_drop_bounds hreached.rest_eq.symm).2

theorem reads :
    (∃ lo, t.scan.Reads (placeAt? text start) lo t.offset) ∧
      ∀ j, placeAt? text start (t.offset + j) = (placesOf t.scan.depths t.rest)[j]? := by
  induction h with
  | first => exact ⟨⟨start, Scan.initial_reads _ start⟩, placeAt?_add text start⟩
  | next hreached hnext ih =>
    cases hnext with
    | read i s x xs =>
      obtain ⟨⟨lo, hs⟩, hplaces⟩ := ih
      have hpos := (lex_drop_bounds hreached.rest_eq.symm).1
      obtain ⟨mid, -, hmid⟩ := hs.step hpos (readAt_of_places hplaces)
      refine ⟨⟨mid, hmid⟩, ?_⟩
      dsimp only
      rw [Scan.step_depths]
      exact places_behind hplaces

theorem tellsChord (hrest : t.rest ≠ []) : t.scan.TellsChord text := by
  induction h with
  | first => exact nofun
  | next hreached hnext ih =>
    cases hnext with
    | read i s x xs => exact (ih (List.cons_ne_nil x xs)).step hreached.rest_eq.symm hrest

theorem openToken {o : OpenToken} (ho : t.scan.token = some o) :
    o.start < o.stop ∧ o.stop ≤ t.offset ∧
      (t.scan.depths.isGround = true → o.stop = t.offset) := by
  obtain ⟨⟨lo, hreads⟩, -⟩ := h.reads
  obtain ⟨i, s, xs⟩ := t
  cases hreads with
  | between => cases ho
  | within hlo hs hopen =>
    cases ho
    exact ⟨hopen.run.lt, hopen.le, hopen.atGround⟩

theorem rest_ne_nil_iff : t.rest ≠ [] ↔ t.offset < text.length := by
  rw [h.rest_eq, ← not_iff_not, not_ne_iff]
  constructor
  · intro hnil
    have := congrArg (List.flatMap Lexeme.chars) hnil
    rw [flatMap_chars_lex] at this
    simpa using this
  · intro hle
    rw [List.drop_eq_nil_of_le (Nat.le_of_not_lt hle)]
    simp [lex]

theorem comment {x : Lexeme} {xs : List Lexeme} (hrest : t.rest = x :: xs)
    (hrole : x.role = .comment) :
    text[t.offset]? = some '/' ∧
      (text[t.offset + 1]? = some '/' ∨ text[t.offset + 1]? = some '*') := by
  obtain ⟨hdrop, -, hbefore⟩ := lex_drop (h.rest_eq.symm.trans hrest)
  have hread (k : Nat) :
      text[t.offset + k]? = (x.chars ++ text.drop (t.offset + x.length))[k]? := by
    rw [← hdrop, List.getElem?_drop]
  have hfirst := hread 0
  have hsecond := hread 1
  cases hbefore with
  | lineComment => exact ⟨hfirst, .inl hsecond⟩
  | blockComment => exact ⟨hfirst, .inr hsecond⟩
  | _ => cases hrole

end Reached

/-- What holds between two turns of a scan that began at `start`. It goes on as long as there is
text in front of it. -/
structure InPlace (text : List Char) (start : Nat) (t : Turn) : Prop where
  marks : ∃ done, marksFrom text start = done ++ t.scan.marks t.offset t.rest
  rest : t.rest = lex (text.drop t.offset)
  inText : t.offset ≤ text.length
  goesOn : t.offset < text.length ↔ ∃ u, t.Next u
  rises : ∀ u, t.Next u → t.offset < u.offset ∧ u.offset ≤ text.length
  stops : ∀ u, t.Next u → ∃ x, t.rest.head? = some x ∧ x.StopsAt text t.offset u.offset
  comment : ∀ x xs, t.rest = x :: xs → x.role = .comment →
    text[t.offset]? = some '/' ∧
      (text[t.offset + 1]? = some '/' ∨ text[t.offset + 1]? = some '*')
  nonempty : ∀ o, t.scan.token = some o → o.start < o.stop ∧ o.stop ≤ t.offset
  atGround : ∀ o, t.scan.token = some o → t.scan.depths.isGround = true → o.stop = t.offset
  endsChord : ∀ o, t.scan.token = some o → t.offset < text.length →
    (o.endsChord = true ↔ text[o.stop - 1]? = some ')')

theorem Next.rises {text : List Char} {t u : Turn} (hrest : t.rest = lex (text.drop t.offset))
    (h : t.Next u) : t.offset < u.offset ∧ u.offset ≤ text.length := by
  cases h with
  | read i s x xs =>
    obtain ⟨hpos, hle⟩ := lex_drop_bounds hrest.symm
    exact ⟨Nat.lt_add_of_pos_right hpos, hle⟩

theorem Next.stops {text : List Char} {t u : Turn} (hrest : t.rest = lex (text.drop t.offset))
    (h : t.Next u) : ∃ x, t.rest.head? = some x ∧ x.StopsAt text t.offset u.offset := by
  cases h with
  | read i s x xs => exact ⟨x, rfl, stopsAt_of_lex hrest.symm⟩

theorem exists_next_iff {t : Turn} : (∃ u, t.Next u) ↔ t.rest ≠ [] := by
  obtain ⟨i, s, xs⟩ := t
  constructor
  · rintro ⟨u, ⟨⟩⟩
    exact List.cons_ne_nil _ _
  · intro hrest
    obtain ⟨x, xs, rfl⟩ := List.exists_cons_of_ne_nil hrest
    exact ⟨_, .read i s x xs⟩

theorem Reached.inPlace {text : List Char} {start : Nat} (hstart : start ≤ text.length) {t : Turn}
    (h : Reached text start t) : t.InPlace text start where
  marks := h.marks
  rest := h.rest_eq
  inText := h.offset_le hstart
  goesOn := h.rest_ne_nil_iff.symm.trans exists_next_iff.symm
  rises := fun _ hnext => hnext.rises h.rest_eq
  stops := fun _ hnext => hnext.stops h.rest_eq
  comment := fun _ _ hrest hrole => h.comment hrest hrole
  nonempty := fun _ ho => ⟨(h.openToken ho).1, (h.openToken ho).2.1⟩
  atGround := fun _ ho => (h.openToken ho).2.2
  endsChord := fun o ho hlt => h.tellsChord (h.rest_ne_nil_iff.mpr hlt) o ho

/-- The chord closes behind a blank and a comment that holds another closing parenthesis. -/
theorem Reached.inPlace_paddedChord :
    let text := "( /*)*/ )(\"\\".toList
    let t : Turn := ⟨9, ⟨.ground, some ⟨0, 9, true⟩⟩, [.code '(', .quoted ['"', '\\']]⟩
    (0 ≤ text.length ∧ Reached text 0 t) ∧ t.InPlace text 0 := by
  intro text t
  have hlex : lex text = [.code '(', .code ' ', .blockComment "/*)*/".toList, .code ' ', .code ')',
      .code '(', .quoted ['"', '\\']] := by decide +kernel
  have hfirst : Reached text 0 ⟨0, .initial, lex text⟩ := .first
  rw [hlex] at hfirst
  have h : Reached text 0 t :=
    ((((hfirst.next (.read ..)).next (.read ..)).next (.read ..)).next (.read ..)).next (.read ..)
  exact ⟨⟨Nat.zero_le _, h⟩, h.inPlace (Nat.zero_le _)⟩

end Turn

end Tablature
