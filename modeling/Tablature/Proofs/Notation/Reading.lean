import Tablature.Notation.Mark

/-!
# How each character is read

A reader goes through a text character by character and sees one character
ahead. It knows whether it is inside a string or a comment, and how many chords
and annotations are open. Lexing reads every character as the reader does
(`places_eq_placesOf`).
-/

namespace Tablature

inductive Role where
  | quoted
  | comment
  | code
deriving Repr, DecidableEq

inductive Inside where
  | nothing
  | string
  /-- In a string, behind a backslash. -/
  | escape
  | lineComment
  /-- Between the slash and the star that open a block comment. -/
  | blockOpening
  | blockComment
  /-- Between the star and the slash that close a block comment. -/
  | blockClosing
deriving Repr, DecidableEq

/-- The role of a character, with the one behind it in sight, and what the reader is inside of
then. -/
def Inside.read (next? : Option Char) (c : Char) : Inside → Role × Inside
  | .nothing =>
    if c = '"' then (.quoted, .string)
    else if c = '/' ∧ next? = some '/' then (.comment, .lineComment)
    else if c = '/' ∧ next? = some '*' then (.comment, .blockOpening)
    else (.code, .nothing)
  | .string => (.quoted, if c = '\\' then .escape else if c = '"' then .nothing else .string)
  | .escape => (.quoted, .string)
  | .lineComment => if c = '\n' then (.code, .nothing) else (.comment, .lineComment)
  | .blockOpening => (.comment, .blockComment)
  | .blockComment =>
    (.comment, if c = '*' ∧ next? = some '/' then .blockClosing else .blockComment)
  | .blockClosing => (.comment, .nothing)

def bracketDepth (opening closing c : Char) (depth : Nat) : Nat :=
  -- what closes nothing leaves the depth at zero
  if c = opening then depth + 1 else if c = closing then depth - 1 else depth

/-- A character as it is read, with the chords and annotations that are open in front of it. -/
structure Place where
  char : Char
  role : Role
  chord : Nat
  brace : Nat
deriving Repr, DecidableEq

structure Reader where
  inside : Inside
  chord : Nat
  brace : Nat
deriving Repr, DecidableEq

namespace Reader

def initial : Reader := ⟨.nothing, 0, 0⟩

def place (r : Reader) (next? : Option Char) (c : Char) : Place :=
  ⟨c, (r.inside.read next? c).1, r.chord, r.brace⟩

def after (r : Reader) (next? : Option Char) (c : Char) : Reader :=
  match r.inside.read next? c with
  | (.code, inside) => ⟨inside, bracketDepth '(' ')' c r.chord, bracketDepth '{' '}' c r.brace⟩
  | (_, inside) => { r with inside }

def places : Reader → List Char → List Place
  | _, [] => []
  | r, c :: cs => r.place cs.head? c :: (r.after cs.head? c).places cs

theorem length_places (r : Reader) (cs : List Char) : (r.places cs).length = cs.length := by
  induction cs generalizing r with
  | nil => rfl
  | cons c cs ih => rw [places, List.length_cons, ih, List.length_cons]

end Reader

def placeAt? (text : List Char) (start o : Nat) : Option Place :=
  if start ≤ o then (Reader.initial.places (text.drop start))[o - start]? else none

theorem placeAt?_inside {text : List Char} {start o : Nat} {p : Place}
    (h : placeAt? text start o = some p) : start ≤ o ∧ o < start + (text.drop start).length := by
  unfold placeAt? at h
  split at h
  · obtain ⟨hlt, -⟩ := List.getElem?_eq_some_iff.mp h
    rw [Reader.length_places] at hlt
    omega
  · cases h

namespace Place

def isGround (p : Place) : Bool := p.chord == 0 && p.brace == 0

def isBarLine (p : Place) : Bool := p.role == .code && p.char == '|' && p.isGround

def isNotation (p : Place) : Bool :=
  p.role == .quoted || (p.role == .code && !isBlank p.char && !p.isBarLine)

def isGap (p : Place) : Bool :=
  p.isGround && (p.role == .comment || (p.role == .code && (isBlank p.char || p.char == '|')))

def closesChord (p : Place) : Bool := p.role == .code && p.char == ')'

def opensChord (p : Place) : Bool := p.role == .code && p.char == '(' && p.isGround

end Place

/-! ## Lexemes as they are read -/

def Lexeme.role : Lexeme → Role
  | .quoted _ => .quoted
  | .lineComment _ | .blockComment _ => .comment
  | .code _ => .code

def Lexeme.places (d : Depths) (x : Lexeme) : List Place :=
  x.chars.map (⟨·, x.role, d.chord, d.brace⟩)

def Lexeme.depthsAfter (d : Depths) : Lexeme → Depths
  | .code c => d.after c
  | _ => d

def placesOf : Depths → List Lexeme → List Place
  | _, [] => []
  | d, x :: xs => x.places d ++ placesOf (x.depthsAfter d) xs

theorem Lexeme.length_places (d : Depths) (x : Lexeme) : (x.places d).length = x.length := by
  simp [places, length]

theorem Depths.after_chord (d : Depths) (c : Char) :
    (d.after c).chord = bracketDepth '(' ')' c d.chord := by
  unfold after bracketDepth
  split
  · rfl
  · split
    · rfl
    · split
      · rfl
      · split <;> rfl

theorem Depths.after_brace (d : Depths) (c : Char) :
    (d.after c).brace = bracketDepth '{' '}' c d.brace := by
  unfold after bracketDepth
  by_cases h₁ : c = '('
  · simp [h₁]
  · by_cases h₂ : c = ')'
    · simp [h₂]
    · simp only [h₁, h₂, ite_false]
      split
      · rfl
      · split <;> rfl

theorem not_pair_of {a b c : Char} {cs : List Char} (h : ∀ ds, c = a → cs = b :: ds → False) :
    ¬ (c = a ∧ cs.head? = some b) := by
  rintro ⟨hc, hhead⟩
  obtain ⟨ds, hcs⟩ := List.head?_eq_some_iff.mp hhead
  exact h ds hc hcs

theorem read_code {c : Char} {cs : List Char} (h₁ : c = '"' → False)
    (h₂ : ∀ ds, c = '/' → cs = '/' :: ds → False) (h₃ : ∀ ds, c = '/' → cs = '*' :: ds → False) :
    Inside.nothing.read cs.head? c = (.code, .nothing) := by
  rw [Inside.read, if_neg h₁, if_neg (not_pair_of h₂), if_neg (not_pair_of h₃)]

theorem ne_backslash_of {c : Char} {cs : List Char} (h₁ : c = '\\' → cs = [] → False)
    (h₂ : ∀ d ds, c = '\\' → cs = d :: ds → False) : c ≠ '\\' := by
  intro hc
  cases cs with
  | nil => exact h₁ hc rfl
  | cons d ds => exact h₂ d ds hc rfl

section
variable (chord brace : Nat)

theorem places_string (cs : List Char) :
    (⟨.string, chord, brace⟩ : Reader).places cs =
      (closeQuote cs).1.map (⟨·, .quoted, chord, brace⟩) ++
        (⟨.nothing, chord, brace⟩ : Reader).places (closeQuote cs).2 := by
  fun_induction closeQuote cs with
  | case1 => rfl
  | case2 => rfl
  | case3 c cs ih => simp [Reader.places, Reader.place, Reader.after, Inside.read, ih]
  | case4 cs => simp [Reader.places, Reader.place, Reader.after, Inside.read]
  | case5 c cs h₁ h₂ h₃ ih =>
    have hc := ne_backslash_of h₁ h₂
    have hc' : c ≠ '"' := h₃
    simp [Reader.places, Reader.place, Reader.after, Inside.read, hc, hc', ih]

theorem places_lineComment (cs : List Char) :
    (⟨.lineComment, chord, brace⟩ : Reader).places cs =
      (cs.takeWhile (· != '\n')).map (⟨·, .comment, chord, brace⟩) ++
        (⟨.nothing, chord, brace⟩ : Reader).places (cs.dropWhile (· != '\n')) := by
  induction cs with
  | nil => rfl
  | cons c cs ih =>
    by_cases hc : c = '\n'
    · subst hc
      simp [Reader.places, Reader.place, Reader.after, Inside.read]
    · simp [Reader.places, Reader.place, Reader.after, Inside.read, hc, ih]

theorem places_blockComment (cs : List Char) :
    (⟨.blockComment, chord, brace⟩ : Reader).places cs =
      (closeBlock cs).1.map (⟨·, .comment, chord, brace⟩) ++
        (⟨.nothing, chord, brace⟩ : Reader).places (closeBlock cs).2 := by
  fun_induction closeBlock cs with
  | case1 => rfl
  | case2 cs => simp [Reader.places, Reader.place, Reader.after, Inside.read]
  | case3 c cs h ih =>
    simp [Reader.places, Reader.place, Reader.after, Inside.read, not_pair_of h, ih]

end

theorem places_eq_placesOf (d : Depths) (cs : List Char) :
    (⟨.nothing, d.chord, d.brace⟩ : Reader).places cs = placesOf d (lex cs) := by
  fun_induction lex cs generalizing d with
  | case1 => rfl
  | case2 cs ih =>
    rw [placesOf, ← ih]
    simp [Reader.places, Reader.place, Reader.after, Inside.read, Lexeme.places, Lexeme.chars,
      Lexeme.role, Lexeme.depthsAfter, places_string]
  | case3 cs ih =>
    rw [placesOf, ← ih]
    simp [Reader.places, Reader.place, Reader.after, Inside.read, Lexeme.places, Lexeme.chars,
      Lexeme.role, Lexeme.depthsAfter, places_lineComment]
  | case4 cs ih =>
    rw [placesOf, ← ih]
    simp [Reader.places, Reader.place, Reader.after, Inside.read, Lexeme.places, Lexeme.chars,
      Lexeme.role, Lexeme.depthsAfter, places_blockComment]
  | case5 c cs h₁ h₂ h₃ ih =>
    have hread := read_code h₁ h₂ h₃
    rw [placesOf, ← ih]
    simp [Reader.places, Reader.place, Reader.after, hread, Lexeme.places, Lexeme.chars,
      Lexeme.role, Lexeme.depthsAfter, Depths.after_chord, Depths.after_brace]

end Tablature
