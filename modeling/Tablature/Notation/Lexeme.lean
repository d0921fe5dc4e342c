import Tablature.Text.Characters

/-!
# Lexemes

A text is cut into quoted strings, comments and single characters of code. A
string runs to the next quote that no backslash escapes, a line comment to the
end of its line, a block comment through the next `*/`; each runs to the end of
the text when nothing ends it. The lexemes in order spell the text.

A header may stand before the notation; a dot of its own ends it. Such a dot is
code and has no digit beside it. Without one the whole text is notation, and it
begins at the first string or code character that is not blank.
-/

namespace Tablature

inductive Lexeme where
  /-- A string with its quotes. -/
  | quoted (chars : List Char)
  /-- A comment from `//` up to the newline. -/
  | lineComment (chars : List Char)
  /-- A comment from `/*` through `*/`. -/
  | blockComment (chars : List Char)
  /-- One character outside strings and comments. -/
  | code (char : Char)
deriving Repr, DecidableEq

namespace Lexeme

def chars : Lexeme → List Char
  | .quoted cs => cs
  | .lineComment cs => cs
  | .blockComment cs => cs
  | .code c => [c]

def length (x : Lexeme) : Nat := x.chars.length

end Lexeme

/-- Splits the text after an opening quote behind the closing one. -/
def closeQuote : List Char → List Char × List Char
  | [] => ([], [])
  | '\\' :: [] => (['\\'], [])
  | '\\' :: c :: cs => ('\\' :: c :: (closeQuote cs).1, (closeQuote cs).2)
  | '"' :: cs => (['"'], cs)
  | c :: cs => (c :: (closeQuote cs).1, (closeQuote cs).2)

/-- Splits the text after an opening `/*` behind the closing `*/`. -/
def closeBlock : List Char → List Char × List Char
  | [] => ([], [])
  | '*' :: '/' :: cs => (['*', '/'], cs)
  | c :: cs => (c :: (closeBlock cs).1, (closeBlock cs).2)

theorem closeQuote_append (cs : List Char) : (closeQuote cs).1 ++ (closeQuote cs).2 = cs := by
  fun_induction closeQuote cs <;> simp_all

theorem closeBlock_append (cs : List Char) : (closeBlock cs).1 ++ (closeBlock cs).2 = cs := by
  fun_induction closeBlock cs <;> simp_all

theorem length_closeQuote_le (cs : List Char) : (closeQuote cs).2.length ≤ cs.length := by
  have := congrArg List.length (closeQuote_append cs)
  rw [List.length_append] at this
  omega

theorem length_closeBlock_le (cs : List Char) : (closeBlock cs).2.length ≤ cs.length := by
  have := congrArg List.length (closeBlock_append cs)
  rw [List.length_append] at this
  omega

theorem length_dropWhile_le (p : Char → Bool) (cs : List Char) :
    (cs.dropWhile p).length ≤ cs.length :=
  (List.dropWhile_sublist p).length_le

def lex : List Char → List Lexeme
  | [] => []
  | '"' :: cs => .quoted ('"' :: (closeQuote cs).1) :: lex (closeQuote cs).2
  | '/' :: '/' :: cs =>
    .lineComment ('/' :: '/' :: cs.takeWhile (· != '\n')) :: lex (cs.dropWhile (· != '\n'))
  | '/' :: '*' :: cs => .blockComment ('/' :: '*' :: (closeBlock cs).1) :: lex (closeBlock cs).2
  | c :: cs => .code c :: lex cs
termination_by cs => cs.length
decreasing_by
  · have := length_closeQuote_le cs; simp only [List.length_cons]; omega
  · have := length_dropWhile_le (· != '\n') cs; simp only [List.length_cons]; omega
  · have := length_closeBlock_le cs; simp only [List.length_cons]; omega
  · simp

/-- Lexing loses and adds nothing. -/
theorem flatMap_chars_lex (cs : List Char) : (lex cs).flatMap Lexeme.chars = cs := by
  fun_induction lex cs with
  | case1 => rfl
  | case2 cs ih => simp [Lexeme.chars, ih, closeQuote_append]
  | case3 cs ih => simp [Lexeme.chars, ih]
  | case4 cs ih => simp [Lexeme.chars, ih, closeBlock_append]
  | case5 c cs _ _ _ ih => simp [Lexeme.chars, ih]

/-! ## Where the notation begins -/

def Lexeme.isDigit : Lexeme → Bool
  | .code c => c.isDigit
  | _ => false

def Lexeme.isContent : Lexeme → Bool
  | .quoted _ => true
  | .code c => !isBlank c
  | _ => false

/-- The offset just past the first dot of its own, in lexemes that begin at offset `i`.
`afterDigit` tells whether a digit stands directly before them. -/
def afterHeaderDot? : (afterDigit : Bool) → (i : Nat) → List Lexeme → Option Nat
  | _, _, [] => none
  | afterDigit, i, x :: xs =>
    if x = .code '.' && !afterDigit && !xs.head?.any Lexeme.isDigit then some (i + 1)
    else afterHeaderDot? x.isDigit (i + x.length) xs

def firstContent? : (i : Nat) → List Lexeme → Option Nat
  | _, [] => none
  | i, x :: xs => if x.isContent then some i else firstContent? (i + x.length) xs

def startOfContent (text : List Char) : Nat :=
  let xs := lex text
  ((afterHeaderDot? false 0 xs).or (firstContent? 0 xs)).getD text.length

end Tablature
