import Tablature.Proofs.Notation.TokenRuns

/-!
# Where lexemes stand

Lexing can begin anew between any two lexemes: what follows the first of them is
lexed as it is in the whole text. So each offset has its role from the lexeme that
stands there, wherever the lexing began in front of it. Where a lexeme ends can be
read off the characters of the text (`Lexeme.StopsAt`).
-/

namespace Tablature

/-! ## A lexeme and the text behind it -/

inductive Lexeme.Before : Lexeme → List Char → Prop
  | quoted {inner rest : List Char} (hclosed : rest ≠ [] → inner.getLast? = some '"') :
      Before (.quoted ('"' :: inner)) rest
  | lineComment {inner rest : List Char} (hline : ∀ c, rest.head? = some c → c = '\n') :
      Before (.lineComment ('/' :: '/' :: inner)) rest
  | blockComment {inner rest : List Char} (hclosed : rest ≠ [] → inner.getLast? = some '/') :
      Before (.blockComment ('/' :: '*' :: inner)) rest
  | code {c : Char} {rest : List Char} : Before (.code c) rest

theorem getLast?_closeQuote {cs : List Char} (h : (closeQuote cs).2 ≠ []) :
    (closeQuote cs).1.getLast? = some '"' := by
  fun_induction closeQuote cs with
  | case1 => exact absurd rfl h
  | case2 => exact absurd rfl h
  | case3 c cs ih => simp [List.getLast?_cons, ih h]
  | case4 cs => rfl
  | case5 c cs _ _ _ ih => simp [List.getLast?_cons, ih h]

theorem getLast?_closeBlock {cs : List Char} (h : (closeBlock cs).2 ≠ []) :
    (closeBlock cs).1.getLast? = some '/' := by
  fun_induction closeBlock cs with
  | case1 => exact absurd rfl h
  | case2 cs => rfl
  | case3 c cs _ ih => simp [List.getLast?_cons, ih h]

theorem lex_cons {cs : List Char} {x : Lexeme} {xs : List Lexeme} (h : lex cs = x :: xs) :
    ∃ rest, cs = x.chars ++ rest ∧ xs = lex rest ∧ x.Before rest := by
  fun_cases lex cs with
  | case1 => simp [lex] at h
  | case2 cs =>
    rw [lex, List.cons.injEq] at h
    obtain ⟨rfl, rfl⟩ := h
    exact ⟨_, by simp [Lexeme.chars, closeQuote_append], rfl, .quoted getLast?_closeQuote⟩
  | case3 cs =>
    rw [lex, List.cons.injEq] at h
    obtain ⟨rfl, rfl⟩ := h
    refine ⟨_, by simp [Lexeme.chars], rfl, .lineComment fun c hc => ?_⟩
    have := List.head?_dropWhile_not (· != '\n') cs
    rw [hc] at this
    simpa using this
  | case4 cs =>
    rw [lex, List.cons.injEq] at h
    obtain ⟨rfl, rfl⟩ := h
    exact ⟨_, by simp [Lexeme.chars, closeBlock_append], rfl, .blockComment getLast?_closeBlock⟩
  | case5 c cs h₁ h₂ h₃ =>
    rw [lex.eq_5 _ _ h₁ h₂ h₃, List.cons.injEq] at h
    obtain ⟨rfl, rfl⟩ := h
    exact ⟨cs, rfl, rfl, .code⟩

section
variable {text : List Char} {i : Nat} {x : Lexeme} {xs : List Lexeme}

theorem lex_drop (h : lex (text.drop i) = x :: xs) :
    text.drop i = x.chars ++ text.drop (i + x.length) ∧ xs = lex (text.drop (i + x.length)) ∧
      x.Before (text.drop (i + x.length)) := by
  obtain ⟨rest, hdrop, rfl, hbefore⟩ := lex_cons h
  have hrest : text.drop (i + x.length) = rest := by
    rw [← List.drop_drop, hdrop]
    exact List.drop_left
  rw [hrest]
  exact ⟨hdrop, rfl, hbefore⟩

/-- A lexeme takes at least one character, and none behind the end of the text. -/
theorem lex_drop_bounds (h : lex (text.drop i) = x :: xs) :
    0 < x.length ∧ i + x.length ≤ text.length := by
  have hpos : 0 < x.length := length_pos_of_mem_lex (h ▸ List.mem_cons_self ..)
  have hlength := congrArg List.length (lex_drop h).1
  rw [List.length_drop, List.length_append, ← Lexeme.length] at hlength
  omega

end

/-! ## The first place from an offset on -/

inductive FirstFrom (P : Nat → Prop) (i : Nat) : Option Nat → Prop
  | found {n : Nat} (hle : i ≤ n) (hn : P n) (hfirst : ∀ k, i ≤ k → k < n → ¬ P k) :
      FirstFrom P i (some n)
  | absent (h : ∀ k, i ≤ k → ¬ P k) : FirstFrom P i none

theorem FirstFrom.skip {P : Nat → Prop} {i j : Nat} {r : Option Nat} (h : FirstFrom P j r)
    (hij : i ≤ j) (hnone : ∀ k, i ≤ k → k < j → ¬ P k) : FirstFrom P i r := by
  cases h with
  | found hle hn hfirst =>
    refine .found (Nat.le_trans hij hle) hn fun k hik hkn => ?_
    rcases Nat.lt_or_ge k j with hkj | hjk
    · exact hnone k hik hkj
    · exact hfirst k hjk hkn
  | absent h =>
    refine .absent fun k hik => ?_
    rcases Nat.lt_or_ge k j with hkj | hjk
    · exact hnone k hik hkj
    · exact h k hjk

theorem FirstFrom.here {P : Nat → Prop} {i : Nat} (h : P i) : FirstFrom P i (some i) :=
  .found (Nat.le_refl i) h fun k hik hki => by omega

theorem FirstFrom.next {P : Nat → Prop} {i : Nat} {r : Option Nat} (h : FirstFrom P (i + 1) r)
    (hi : ¬ P i) : FirstFrom P i r := by
  refine h.skip (Nat.le_succ i) fun k hik hk => ?_
  obtain rfl : k = i := by omega
  exact hi

/-! ## Where a lexeme ends -/

def endingBackslashes (front : List Char) : Nat := (front.reverse.takeWhile (· == '\\')).length

/-- A quote that is not escaped. Backslashes in front of it that come in pairs escape each other. -/
structure ClosesString (text : List Char) (o : Nat) : Prop where
  isQuote : text[o]? = some '"'
  paired : endingBackslashes (text.take o) % 2 = 0

def ClosesBlock (text : List Char) (o : Nat) : Prop :=
  text[o]? = some '*' ∧ text[o + 1]? = some '/'

/-- Where the text goes on behind a lexeme that begins at `i`. What nothing closes goes on to the end
of the text. -/
inductive Lexeme.StopsAt (text : List Char) (i : Nat) : Lexeme → Nat → Prop
  | quoted {cs : List Char} {e : Option Nat} (h : FirstFrom (ClosesString text) (i + 1) e) :
      StopsAt text i (.quoted cs) ((e.map (· + 1)).getD text.length)
  | lineComment {cs : List Char} {e : Option Nat}
      (h : FirstFrom (fun o => text[o]? = some '\n') i e) :
      StopsAt text i (.lineComment cs) (e.getD text.length)
  | blockComment {cs : List Char} {e : Option Nat} (h : FirstFrom (ClosesBlock text) (i + 2) e) :
      StopsAt text i (.blockComment cs) ((e.map (· + 2)).getD text.length)
  | code {c : Char} : StopsAt text i (.code c) (i + 1)

theorem endingBackslashes_backslash (front : List Char) :
    endingBackslashes (front ++ ['\\']) = endingBackslashes front + 1 := by
  simp [endingBackslashes]

theorem endingBackslashes_other {front : List Char} {c : Char} (hc : c ≠ '\\') :
    endingBackslashes (front ++ [c]) = 0 := by
  simp [endingBackslashes, hc]

section
variable {text : List Char} {i : Nat} {c : Char} {cs : List Char}

theorem lt_length_of_getElem? (h : text[i]? = some c) : i < text.length :=
  (List.getElem?_eq_some_iff.mp h).1

theorem eq_length_of_drop (h : text.drop i = []) (hle : i ≤ text.length) : i = text.length :=
  Nat.le_antisymm hle (List.drop_eq_nil_iff.mp h)

theorem firstFrom_of_drop {P : Nat → Prop} (h : text.drop i = []) (hP : ∀ k, P k → k < text.length) :
    FirstFrom P i none := by
  refine .absent fun k hk hPk => ?_
  have hlt : k < text.length := hP k hPk
  have hle : text.length ≤ i := List.drop_eq_nil_iff.mp h
  omega

theorem drop_cons (h : text.drop i = c :: cs) :
    text[i]? = some c ∧ text.drop (i + 1) = cs ∧ i + 1 ≤ text.length ∧
      text.take (i + 1) = text.take i ++ [c] := by
  have hc : text[i]? = some c := by rw [← List.head?_drop, h]; rfl
  refine ⟨hc, ?_, lt_length_of_getElem? hc, ?_⟩
  · rw [← List.drop_drop, h, List.drop_one, List.tail_cons]
  · rw [List.take_add_one, hc]
    rfl

theorem closeQuote_first (hcs : text.drop i = cs) (hle : i ≤ text.length)
    (hpaired : endingBackslashes (text.take i) % 2 = 0) :
    ∃ e, FirstFrom (ClosesString text) i e ∧
      i + (closeQuote cs).1.length = (e.map (· + 1)).getD text.length := by
  fun_induction closeQuote cs generalizing i with
  | case1 =>
    refine ⟨none, firstFrom_of_drop hcs fun k hcloses => ?_, eq_length_of_drop hcs hle⟩
    exact lt_length_of_getElem? hcloses.isQuote
  | case2 =>
    obtain ⟨hc, hrest, hlt, -⟩ := drop_cons hcs
    have hfirst : FirstFrom (ClosesString text) (i + 1) none :=
      firstFrom_of_drop hrest fun k hcloses => lt_length_of_getElem? hcloses.isQuote
    refine ⟨none, hfirst.next fun hcloses => ?_, eq_length_of_drop hrest hlt⟩
    cases hc.symm.trans hcloses.isQuote
  | case3 c cs ih =>
    -- an odd number of backslashes stands in front of `c`, so `c` closes nothing
    obtain ⟨hc, hrest, -, htake⟩ := drop_cons hcs
    obtain ⟨-, hrest', hlt', htake'⟩ := drop_cons hrest
    have hodd : endingBackslashes (text.take (i + 1)) % 2 = 1 := by
      rw [htake, endingBackslashes_backslash]
      omega
    have hpaired' : endingBackslashes (text.take (i + 1 + 1)) % 2 = 0 := by
      rw [htake']
      by_cases hbackslash : c = '\\'
      · rw [hbackslash, endingBackslashes_backslash]
        omega
      · rw [endingBackslashes_other hbackslash]
    obtain ⟨e, hfirst, hlength⟩ := ih hrest' hlt' hpaired'
    refine ⟨e, (hfirst.next fun hcloses => ?_).next fun hcloses => ?_, ?_⟩
    · have := hcloses.paired
      omega
    · cases hc.symm.trans hcloses.isQuote
    · rw [← hlength, List.length_cons, List.length_cons]
      omega
  | case4 cs =>
    obtain ⟨hc, -⟩ := drop_cons hcs
    exact ⟨some i, .here ⟨hc, hpaired⟩, rfl⟩
  | case5 c cs h₁ h₂ h₃ ih =>
    obtain ⟨hc, hrest, hlt, htake⟩ := drop_cons hcs
    have hpaired' : endingBackslashes (text.take (i + 1)) % 2 = 0 := by
      rw [htake, endingBackslashes_other (ne_backslash_of h₁ h₂)]
    obtain ⟨e, hfirst, hlength⟩ := ih hrest hlt hpaired'
    refine ⟨e, hfirst.next fun hcloses => ?_, ?_⟩
    · exact h₃ (Option.some.inj (hc.symm.trans hcloses.isQuote))
    · rw [← hlength, List.length_cons]
      omega

theorem closeBlock_first (hcs : text.drop i = cs) (hle : i ≤ text.length) :
    ∃ e, FirstFrom (ClosesBlock text) i e ∧
      i + (closeBlock cs).1.length = (e.map (· + 2)).getD text.length := by
  fun_induction closeBlock cs generalizing i with
  | case1 =>
    refine ⟨none, firstFrom_of_drop hcs fun k hcloses => ?_, eq_length_of_drop hcs hle⟩
    exact lt_length_of_getElem? hcloses.1
  | case2 cs =>
    obtain ⟨hstar, hrest, -⟩ := drop_cons hcs
    exact ⟨some i, .here ⟨hstar, (drop_cons hrest).1⟩, rfl⟩
  | case3 c cs h ih =>
    obtain ⟨hc, hrest, hlt, -⟩ := drop_cons hcs
    obtain ⟨e, hfirst, hlength⟩ := ih hrest hlt
    refine ⟨e, hfirst.next ?_, ?_⟩
    · rintro ⟨hstar, hslash⟩
      refine not_pair_of h ⟨Option.some.inj (hc.symm.trans hstar), ?_⟩
      rw [← hrest, List.head?_drop, hslash]
    · rw [← hlength, List.length_cons]
      omega

theorem takeWhile_first (hcs : text.drop i = cs) (hle : i ≤ text.length) :
    ∃ e, FirstFrom (fun o => text[o]? = some '\n') i e ∧
      i + (cs.takeWhile (· != '\n')).length = e.getD text.length := by
  induction cs generalizing i with
  | nil =>
    refine ⟨none, firstFrom_of_drop hcs fun k hnewline => ?_, eq_length_of_drop hcs hle⟩
    exact lt_length_of_getElem? hnewline
  | cons c cs ih =>
    obtain ⟨hc, hrest, hlt, -⟩ := drop_cons hcs
    by_cases hnewline : c = '\n'
    · subst hnewline
      exact ⟨some i, .here hc, rfl⟩
    · obtain ⟨e, hfirst, hlength⟩ := ih hrest hlt
      refine ⟨e, hfirst.next fun h => hnewline (Option.some.inj (hc.symm.trans h)), ?_⟩
      rw [List.takeWhile_cons_of_pos (by simpa using hnewline), List.length_cons, ← hlength]
      omega

theorem stopsAt_of_lex {x : Lexeme} {xs : List Lexeme} (hx : lex (text.drop i) = x :: xs) :
    x.StopsAt text i (i + x.length) := by
  have hle : i ≤ text.length := by
    have := lex_drop_bounds hx
    omega
  generalize hcs : text.drop i = cs at hx
  fun_cases lex cs with
  | case1 => simp [lex] at hx
  | case2 cs =>
    rw [lex, List.cons.injEq] at hx
    obtain ⟨rfl, rfl⟩ := hx
    obtain ⟨-, hrest, hlt, htake⟩ := drop_cons hcs
    obtain ⟨e, hfirst, hlength⟩ := closeQuote_first hrest hlt
      (by rw [htake, endingBackslashes_other (by decide)])
    have hstop : i + (Lexeme.quoted ('"' :: (closeQuote cs).1)).length =
        (e.map (· + 1)).getD text.length := by
      rw [← hlength, Lexeme.length, Lexeme.chars, List.length_cons]
      omega
    exact hstop ▸ .quoted hfirst
  | case3 cs =>
    rw [lex, List.cons.injEq] at hx
    obtain ⟨rfl, rfl⟩ := hx
    obtain ⟨e, hfirst, hlength⟩ := takeWhile_first hcs hle
    rw [List.takeWhile_cons_of_pos (by decide), List.takeWhile_cons_of_pos (by decide)] at hlength
    exact hlength ▸ .lineComment hfirst
  | case4 cs =>
    rw [lex, List.cons.injEq] at hx
    obtain ⟨rfl, rfl⟩ := hx
    obtain ⟨-, hrest, -⟩ := drop_cons hcs
    obtain ⟨-, hrest', hlt', -⟩ := drop_cons hrest
    obtain ⟨e, hfirst, hlength⟩ := closeBlock_first hrest' hlt'
    have hstop : i + (Lexeme.blockComment ('/' :: '*' :: (closeBlock cs).1)).length =
        (e.map (· + 2)).getD text.length := by
      rw [← hlength, Lexeme.length, Lexeme.chars, List.length_cons, List.length_cons]
      omega
    exact hstop ▸ .blockComment hfirst
  | case5 c cs h₁ h₂ h₃ =>
    rw [lex.eq_5 _ _ h₁ h₂ h₃, List.cons.injEq] at hx
    obtain ⟨rfl, rfl⟩ := hx
    exact .code

end

/-! ## Offsets between lexemes -/

/-- No string and no comment goes across the offset, and lexing from it gives the lexemes of the
whole text that follow it. -/
structure Between (text : List Char) (i : Nat) : Prop where
  le : i ≤ text.length
  rest : ∃ front, front.flatMap Lexeme.chars = text.take i ∧ lex text = front ++ lex (text.drop i)

theorem Between.zero (text : List Char) : Between text 0 := ⟨Nat.zero_le _, [], rfl, rfl⟩

theorem Between.length (text : List Char) : Between text text.length :=
  ⟨Nat.le_refl _, lex text, by rw [flatMap_chars_lex, List.take_length], by simp [lex]⟩

theorem Between.next {text : List Char} {i : Nat} (h : Between text i) {x : Lexeme}
    {xs : List Lexeme} (hx : lex (text.drop i) = x :: xs) : Between text (i + x.length) := by
  obtain ⟨hdrop, hrest, -⟩ := lex_drop hx
  obtain ⟨-, front, hfront, hlex⟩ := h
  refine ⟨(lex_drop_bounds hx).2, front ++ [x], ?_, ?_⟩
  · have htake : (x.chars ++ text.drop (i + x.length)).take x.length = x.chars := List.take_left
    rw [List.take_add, hdrop, htake, List.flatMap_append, hfront]
    simp
  · rw [hlex, hx, hrest, List.append_assoc]
    rfl

/-! ## Roles -/

def roleAt? (text : List Char) (start o : Nat) : Option Role := (placeAt? text start o).map Place.role

def Lexeme.roles (x : Lexeme) : List Role := List.replicate x.length x.role

theorem map_role_placesOf (d : Depths) (xs : List Lexeme) :
    (placesOf d xs).map Place.role = xs.flatMap Lexeme.roles := by
  induction xs generalizing d with
  | nil => rfl
  | cons x xs ih =>
    rw [placesOf, List.map_append, ih, List.flatMap_cons, Lexeme.places, List.map_map]
    congr 1
    exact List.map_const'

theorem length_flatMap_roles (xs : List Lexeme) :
    (xs.flatMap Lexeme.roles).length = (xs.flatMap Lexeme.chars).length := by
  simp only [List.length_flatMap, Lexeme.roles, List.length_replicate, Lexeme.length]

theorem roleAt?_add (text : List Char) (start k : Nat) :
    roleAt? text start (start + k) = ((lex (text.drop start)).flatMap Lexeme.roles)[k]? := by
  rw [roleAt?, placeAt?_add, ← map_role_placesOf .ground, List.getElem?_map]

theorem Between.roleAt?_eq {text : List Char} {i : Nat} (h : Between text i) (k : Nat) :
    roleAt? text 0 (i + k) = roleAt? text i (i + k) := by
  obtain ⟨hle, front, hfront, hlex⟩ := h
  have hlength : (front.flatMap Lexeme.roles).length = i := by
    rw [length_flatMap_roles, hfront, List.length_take, Nat.min_eq_left hle]
  have hzero := roleAt?_add text 0 (i + k)
  rw [Nat.zero_add, List.drop_zero, hlex, List.flatMap_append, ← hlength,
    List.getElem?_append_right (Nat.le_add_right ..), Nat.add_sub_cancel_left, hlength] at hzero
  rw [hzero, roleAt?_add]

theorem Between.roleAt?_of_lex {text : List Char} {i : Nat} (h : Between text i) {x : Lexeme}
    {xs : List Lexeme} (hx : lex (text.drop i) = x :: xs) {o : Nat} (hi : i ≤ o)
    (ho : o < i + x.length) : roleAt? text 0 o = some x.role := by
  obtain ⟨k, rfl⟩ := Nat.exists_eq_add_of_le hi
  have hk : k < x.roles.length := by
    rw [Lexeme.roles, List.length_replicate]
    omega
  rw [h.roleAt?_eq, roleAt?_add, hx, List.flatMap_cons, List.getElem?_append_left hk,
    List.getElem?_eq_getElem hk]
  simp [Lexeme.roles]

end Tablature
