import Tablature.Proofs.Notation.GroundStarts
import Tablature.Proofs.Notation.LexemePlaces

/-!
# The place where the notation begins

The header ends at the first dot of code that has no plain digit on either side.
Without one the notation begins where the first string opens or at the first code
character that is not blank, whichever comes first. That place is between two
lexemes, so a scan that begins there reads strings and comments where a reader of
the whole text does.
-/

namespace Tablature

structure LoneDot (text : List Char) (d : Nat) : Prop where
  isCode : roleAt? text 0 d = some .code
  isDot : text[d]? = some '.'
  noDigitBefore : (text.take d).getLast?.any Char.isDigit = false
  noDigitBehind : text[d + 1]?.any Char.isDigit = false

/-- A string opens where a reader that is inside of nothing reads a character as quoted. -/
inductive BeginsContent (text : List Char) (o : Nat) : Prop
  | string (hquoted : roleAt? text 0 o = some .quoted)
      (hinside : (readerAt text 0 o).inside = .nothing)
  | code (hcode : roleAt? text 0 o = some .code) {c : Char} (hc : text[o]? = some c)
      (hblank : isBlank c = false)

/-! ## Digits beside a lexeme -/

theorem lex_head_isDigit (cs : List Char) :
    (lex cs).head?.any Lexeme.isDigit = cs.head?.any Char.isDigit := by
  fun_cases lex cs with
  | case1 => rfl
  | case2 cs => simp [Lexeme.isDigit]
  | case3 cs => simp [Lexeme.isDigit]
  | case4 cs => simp [Lexeme.isDigit]
  | case5 c cs => rfl

/-- A comment may end with a digit in front of the newline, and nowhere else. -/
theorem Lexeme.Before.last_isDigit {x : Lexeme} {rest : List Char} {c : Char} (h : x.Before rest)
    (hc : rest.head? = some c) (hnewline : c ≠ '\n') :
    x.chars.getLast?.any Char.isDigit = x.isDigit := by
  have hrest : rest ≠ [] := by
    rintro rfl
    cases hc
  cases h with
  | quoted hclosed => simp [chars, isDigit, List.getLast?_cons, hclosed hrest]
  | lineComment hline => exact absurd (hline c hc) hnewline
  | blockComment hclosed => simp [chars, isDigit, List.getLast?_cons, hclosed hrest]
  | code => rfl

/-- The test for a digit in front of a lexeme, which does not matter in front of a newline. -/
def TellsDigit (text : List Char) (i : Nat) (afterDigit : Bool) : Prop :=
  ∀ c, text[i]? = some c → c ≠ '\n' → (text.take i).getLast?.any Char.isDigit = afterDigit

section
variable {text : List Char} {i : Nat}

theorem tellsDigit_behind {x : Lexeme} {xs : List Lexeme} (hx : lex (text.drop i) = x :: xs) :
    TellsDigit text (i + x.length) x.isDigit := by
  obtain ⟨hdrop, -, hbefore⟩ := lex_drop hx
  intro c hc hnewline
  have htake : text.take (i + x.length) = text.take i ++ x.chars := by
    rw [List.take_add, hdrop, Lexeme.length, List.take_left]
  have hne : x.chars ≠ [] := List.length_pos_iff.mp (lex_drop_bounds hx).1
  rw [htake, List.getLast?_append_of_ne_nil _ hne]
  exact hbefore.last_isDigit (by rw [List.head?_drop, hc]) hnewline

theorem getElem?_of_lex_code {c : Char} {xs : List Lexeme}
    (hx : lex (text.drop i) = .code c :: xs) : text[i]? = some c := by
  rw [← List.head?_drop, (lex_drop hx).1]
  rfl

/-- Code is read character by character. -/
theorem Lexeme.eq_of_code {c : Char} {o : Nat} (hi : i ≤ o) (ho : o < i + (code c).length) :
    o = i := by
  have hlength : (code c).length = 1 := rfl
  omega

variable (h : Between text i)
include h

theorem Between.absent (hend : lex (text.drop i) = []) (k : Nat) (hk : i ≤ k) :
    roleAt? text 0 k = none := by
  obtain ⟨j, rfl⟩ := Nat.exists_eq_add_of_le hk
  rw [h.roleAt?_eq, roleAt?_add, hend]
  rfl

/-! ## The dot behind the header -/

theorem Between.loneDot_iff {afterDigit : Bool} (hdigit : TellsDigit text i afterDigit)
    {x : Lexeme} {xs : List Lexeme} (hx : lex (text.drop i) = x :: xs) {o : Nat} (hi : i ≤ o)
    (ho : o < i + x.length) :
    LoneDot text o ↔
      o = i ∧ x = .code '.' ∧ afterDigit = false ∧ xs.head?.any Lexeme.isDigit = false := by
  have hrole := h.roleAt?_of_lex hx hi ho
  have hbehind : ∀ c, x = .code c → xs.head?.any Lexeme.isDigit = text[i + 1]?.any Char.isDigit := by
    rintro c rfl
    rw [(lex_drop hx).2.1, lex_head_isDigit, List.head?_drop]
    rfl
  constructor
  · intro hdot
    cases x with
    | code c =>
      obtain rfl := Lexeme.eq_of_code hi ho
      have hc : c = '.' := Option.some.inj ((getElem?_of_lex_code hx).symm.trans hdot.isDot)
      subst hc
      refine ⟨rfl, rfl, ?_, ?_⟩
      · rw [← hdigit '.' hdot.isDot (by decide), hdot.noDigitBefore]
      · rw [hbehind _ rfl, hdot.noDigitBehind]
    | _ =>
      rw [hdot.isCode] at hrole
      cases hrole
  · rintro ⟨rfl, rfl, hbefore, hnext⟩
    have hdot := getElem?_of_lex_code hx
    refine ⟨hrole, hdot, ?_, ?_⟩
    · rw [hdigit '.' hdot (by decide), hbefore]
    · rw [← hbehind _ rfl, hnext]

theorem Between.afterHeaderDot?_first {afterDigit : Bool} (hdigit : TellsDigit text i afterDigit) :
    ∃ dot, FirstFrom (LoneDot text) i dot ∧
      afterHeaderDot? afterDigit i (lex (text.drop i)) = dot.map (· + 1) ∧
      ∀ d, dot = some d → Between text (d + 1) := by
  generalize hxs : lex (text.drop i) = xs
  induction xs generalizing i afterDigit with
  | nil =>
    refine ⟨none, .absent fun k hk hdot => ?_, rfl, nofun⟩
    have := hdot.isCode
    rw [h.absent hxs k hk] at this
    cases this
  | cons x xs ih =>
    have hpos := (lex_drop_bounds hxs).1
    have hnext := h.next hxs
    have hiff {o : Nat} (hi : i ≤ o) (ho : o < i + x.length) := h.loneDot_iff hdigit hxs hi ho
    by_cases hdot : LoneDot text i
    · obtain ⟨-, rfl, hafter, hhead⟩ := (hiff (Nat.le_refl i) (by omega)).mp hdot
      refine ⟨some i, .here hdot, ?_, ?_⟩
      · simp [afterHeaderDot?, hafter, hhead]
      · rintro d ⟨⟩
        exact hnext
    · obtain ⟨dot, hfirst, hscan, hbetween⟩ := ih hnext (tellsDigit_behind hxs) (lex_drop hxs).2.1.symm
      refine ⟨dot, hfirst.skip (Nat.le_add_right ..) fun k hik hk hlone => ?_, ?_, hbetween⟩
      · obtain ⟨rfl, -⟩ := (hiff hik hk).mp hlone
        exact hdot hlone
      · have hcode : ¬ (x = .code '.' ∧ afterDigit = false ∧ xs.head?.any Lexeme.isDigit = false) :=
          fun hx => hdot ((hiff (Nat.le_refl i) (by omega)).mpr ⟨rfl, hx⟩)
        rw [afterHeaderDot?, if_neg (by simpa [and_assoc] using hcode), hscan]

/-! ## The first of the content -/

theorem Between.inside {x : Lexeme} {xs : List Lexeme} (hx : lex (text.drop i) = x :: xs)
    (hnewline : x ≠ .code '\n') : (readerAt text 0 i).inside = .nothing := by
  obtain ⟨hle, front, hfront, hlex⟩ := h
  rw [hx] at hlex
  have hreader := upTo_lex (d := .ground) hlex hnewline
  rw [hfront, List.length_take, Nat.min_eq_left hle] at hreader
  have hinitial : Reader.initial = Depths.ground.reader := rfl
  rw [readerAt, hinitial, List.drop_zero, Nat.sub_zero, hreader]
  rfl

theorem Between.beginsContent {x : Lexeme} {xs : List Lexeme} (hx : lex (text.drop i) = x :: xs)
    (hcontent : x.isContent = true) : BeginsContent text i := by
  have hpos := (lex_drop_bounds hx).1
  have hrole := h.roleAt?_of_lex hx (Nat.le_refl i) (by omega)
  cases x with
  | quoted cs => exact .string hrole (h.inside hx nofun)
  | code c => exact .code hrole (getElem?_of_lex_code hx) (by simpa [Lexeme.isContent] using hcontent)
  | _ => cases hcontent

theorem Between.not_beginsContent {x : Lexeme} {xs : List Lexeme}
    (hx : lex (text.drop i) = x :: xs) (hcontent : x.isContent = false) {o : Nat} (hi : i ≤ o)
    (ho : o < i + x.length) : ¬ BeginsContent text o := by
  have hrole := h.roleAt?_of_lex hx hi ho
  intro hbegins
  cases hbegins with
  | string hquoted =>
    rw [hquoted] at hrole
    cases x with
    | quoted cs => cases hcontent
    | _ => cases hrole
  | code hcode hc hblank =>
    rw [hcode] at hrole
    cases x with
    | code c =>
      rw [Lexeme.eq_of_code hi ho, getElem?_of_lex_code hx] at hc
      cases hc
      simp [Lexeme.isContent, hblank] at hcontent
    | _ => cases hrole

theorem Between.firstContent?_first :
    FirstFrom (BeginsContent text) i (firstContent? i (lex (text.drop i))) ∧
      ∀ o, firstContent? i (lex (text.drop i)) = some o → Between text o := by
  generalize hxs : lex (text.drop i) = xs
  induction xs generalizing i with
  | nil =>
    refine ⟨.absent fun k hk hbegins => ?_, nofun⟩
    have hnone := h.absent hxs k hk
    cases hbegins with
    | string hquoted =>
      rw [hquoted] at hnone
      cases hnone
    | code hcode =>
      rw [hcode] at hnone
      cases hnone
  | cons x xs ih =>
    rw [firstContent?]
    by_cases hcontent : x.isContent = true
    · rw [if_pos hcontent]
      refine ⟨.here (h.beginsContent hxs hcontent), ?_⟩
      rintro o ⟨⟩
      exact h
    · rw [if_neg hcontent]
      obtain ⟨hfirst, hbetween⟩ := ih (h.next hxs) (lex_drop hxs).2.1.symm
      refine ⟨hfirst.skip (Nat.le_add_right ..) fun k hik hk => ?_, hbetween⟩
      exact h.not_beginsContent hxs (by simpa using hcontent) hik hk

end

/-- Whether read from the front of the text or from where its notation begins, each character of
the notation has the same role. -/
theorem startOfContent_place (text : List Char) :
    (∃ dot content, FirstFrom (LoneDot text) 0 dot ∧ FirstFrom (BeginsContent text) 0 content ∧
      startOfContent text = ((dot.map (· + 1)).or content).getD text.length) ∧
    Between text (startOfContent text) ∧
    ∀ k, roleAt? text (startOfContent text) (startOfContent text + k) =
      roleAt? text 0 (startOfContent text + k) := by
  have hzero := Between.zero text
  have hdigit : TellsDigit text 0 false := fun c hc hnewline => rfl
  obtain ⟨dot, hdot, hscan, hbehind⟩ := hzero.afterHeaderDot?_first hdigit
  obtain ⟨hcontent, hfront⟩ := hzero.firstContent?_first
  rw [List.drop_zero] at hscan hcontent hfront
  have hstart : startOfContent text =
      ((dot.map (· + 1)).or (firstContent? 0 (lex text))).getD text.length := by
    rw [startOfContent, hscan]
  have hbetween : Between text (startOfContent text) := by
    rw [hstart]
    cases hd : dot with
    | some d => exact hbehind d hd
    | none =>
      cases ho : firstContent? 0 (lex text) with
      | some o => exact hfront o ho
      | none => exact .length text
  exact ⟨⟨dot, _, hdot, hcontent, hstart⟩, hbetween, fun k => (hbetween.roleAt?_eq k).symm⟩

end Tablature
