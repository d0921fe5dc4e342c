/-!
# Offsets, lines and columns

A line index lists where the lines of a text start. Offsets count characters;
lines and columns count from zero. Positions outside the text are moved to the
nearest one inside it.
-/

namespace Tablature

def clampTo (top : Nat) (n : Int) : Nat := min n.toNat top

/-- The offsets just past each newline of a text that begins at offset `k`. -/
def startsAfter : Nat → List Char → List Nat
  | _, [] => []
  | k, c :: cs => if c = '\n' then (k + 1) :: startsAfter (k + 1) cs else startsAfter (k + 1) cs

structure LineIndex where
  starts : List Nat
  textLength : Nat
deriving Repr, DecidableEq

namespace LineIndex

def ofText (text : List Char) : LineIndex := ⟨0 :: startsAfter 0 text, text.length⟩

def lineCount (ix : LineIndex) : Nat := ix.starts.length

def start (ix : LineIndex) (line : Nat) : Nat := ix.starts.getD line 0

def lineLength (ix : LineIndex) (line : Nat) : Nat :=
  match ix.starts[line + 1]? with
  | some next => next - 1 - ix.start line
  | none => ix.textLength - ix.start line

def offsetToLineCol (ix : LineIndex) (offset : Int) : Nat × Nat :=
  let o := clampTo ix.textLength offset
  let line := ix.starts.countP (· ≤ o) - 1
  (line, o - ix.start line)

def lineColToOffset (ix : LineIndex) (line column : Int) : Nat :=
  let l := clampTo (ix.lineCount - 1) line
  ix.start l + clampTo (ix.lineLength l) column

/-- The start of a line, where a negative line counts from the last one back. -/
def startFromEitherEnd? (ix : LineIndex) (line : Int) : Option Nat :=
  if 0 ≤ line then ix.starts[line.toNat]?
  else if -(ix.lineCount : Int) ≤ line then ix.starts[(ix.lineCount + line).toNat]?
  else none

/-- The length of a line without its newline, where a negative line counts from the last one back.
There is none for a line that does not exist. The next line is looked up in the same way: after
line `-1` comes line `0`, so the length of the last line asked for as `-1` is negative. -/
def lineLength? (ix : LineIndex) (line : Int) : Option Int := do
  let first ← ix.startFromEitherEnd? line
  if line + 1 < ix.lineCount then
    let next ← ix.startFromEitherEnd? (line + 1)
    return next - 1 - first
  else
    return ix.textLength - first

end LineIndex

def offsetToLineCol (text : List Char) (offset : Int) : Nat × Nat :=
  (LineIndex.ofText text).offsetToLineCol offset

def lineColToOffset (text : List Char) (line column : Int) : Nat :=
  (LineIndex.ofText text).lineColToOffset line column

end Tablature
