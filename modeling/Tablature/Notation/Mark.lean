import Tablature.Notation.Lexeme
import Tablature.Text.Characters

/-!
# Tokens and bar lines

A scan over the lexemes of the notation finds its tokens and bar lines. Chords
in parentheses and annotations in braces are groups: inside a group blanks, bar
lines and comments do not end a token. At ground level they do, and an opening
parenthesis right after a closing one begins a token of its own.
-/

namespace Tablature

structure Depths where
  chord : Nat
  brace : Nat
deriving Repr, DecidableEq

namespace Depths

def ground : Depths := ⟨0, 0⟩

def isGround (d : Depths) : Bool := d.chord == 0 && d.brace == 0

/-- The depths after a character of code. A bracket that closes nothing is ignored. -/
def after (d : Depths) (c : Char) : Depths :=
  if c = '(' then { d with chord := d.chord + 1 }
  else if c = ')' then { d with chord := d.chord - 1 }
  else if c = '{' then { d with brace := d.brace + 1 }
  else if c = '}' then { d with brace := d.brace - 1 }
  else d

end Depths

structure OpenToken where
  start : Nat
  /-- The offset just past the last character taken so far. -/
  stop : Nat
  /-- Whether the last character taken so far is a closing parenthesis. -/
  endsChord : Bool
deriving Repr, DecidableEq

inductive Mark where
  | token (start stop : Nat)
  | bar
deriving Repr, DecidableEq

structure Scan where
  depths : Depths
  token : Option OpenToken
deriving Repr, DecidableEq

namespace Scan

def initial : Scan := ⟨.ground, none⟩

def extend (s : Scan) (start stop : Nat) (endsChord : Bool) : Scan :=
  { s with token := some ⟨(s.token.map OpenToken.start).getD start, stop, endsChord⟩ }

def close (s : Scan) : Scan := { s with token := none }

def closed (s : Scan) : List Mark :=
  match s.token with
  | some t => [.token t.start t.stop]
  | none => []

def take (s : Scan) (i : Nat) (c : Char) : Scan :=
  { s with depths := s.depths.after c }.extend i (i + 1) (c == ')')

/-- Reads a lexeme at offset `i`; the second part is the marks it completes. -/
def step (s : Scan) (i : Nat) : Lexeme → Scan × List Mark
  | .quoted cs => (s.extend i (i + cs.length) false, [])
  | .lineComment _ | .blockComment _ => if s.depths.isGround then (s.close, s.closed) else (s, [])
  | .code c =>
    if !s.depths.isGround then
      (if isBlank c then { s with depths := s.depths.after c } else s.take i c, [])
    else if c = '|' then (s.close, s.closed ++ [.bar])
    else if isBlank c then (s.close, s.closed)
    else if c = '(' && s.token.any OpenToken.endsChord then (s.close.take i c, s.closed)
    else (s.take i c, [])

/-- The marks of lexemes that begin at offset `i`. The last token ends with the text. -/
def marks (s : Scan) : (i : Nat) → List Lexeme → List Mark
  | _, [] => s.closed
  | i, x :: xs => (s.step i x).2 ++ marks (s.step i x).1 (i + x.length) xs

end Scan

def marksFrom (text : List Char) (start : Nat) : List Mark :=
  Scan.initial.marks start (lex (text.drop start))

end Tablature
