import Tablature.Score.BeatMap

/-!
# Between the score and the text

A selection covers the text from its first beat to its last, playback covers one
beat, and the parked cursor covers a bar, line by line. Score and text may
disagree for a moment after an edit, so a selection falls back to the nearest
beat.

The editor's cursor belongs to the first beat that it touches, else to the
nearest beat that is close enough. A cursor in the header belongs to none. A
distance is a signed word of 64 bits. Where a span runs forward, or its ends are
not too far away, every distance from it fits a word and is exact. The distance
from any other span is reduced to a word at each step. The beats of a text always
have exact distances.
-/

namespace Tablature

/-! ## From the score to the text -/

def earliestMin? {α : Type} (weight : α → Int) : List α → Option α
  | [] => none
  | a :: as =>
    match earliestMin? weight as with
    | none => some a
    | some b => if weight b < weight a then some b else some a

/-- How far apart two places in the score are. A bar weighs as much as a hundred beats. -/
def ScorePosition.distance (p q : ScorePosition) : Int :=
  (p.bar - q.bar).natAbs * 100 + (p.beat - q.beat).natAbs

namespace BeatMap

def findOrFirst? (m : BeatMap) (p : ScorePosition) : Option Beat :=
  (m.find? p).or (m.firstInBar? p.bar)

def resolve? (m : BeatMap) (p : ScorePosition) : Option Beat :=
  (m.findOrFirst? p).or (earliestMin? (·.position.distance p) m.beats)

/-- The span of a selection. There is none when it is empty or leaves the text. -/
def selectionSpan? (m : BeatMap) (textLength : Nat) (s : Selection) : Option Span := do
  let first ← m.resolve? s.first
  let last ← m.resolve? s.last
  let span := first.span.hull last.span
  if 0 ≤ span.start ∧ span.start < span.stop ∧ span.stop ≤ textLength then some span else none

def playbackSpan? (m : BeatMap) (p : ScorePosition) : Option Span :=
  (m.findOrFirst? p).map Beat.span

def runSpan? (run : List Beat) : Option Span := do
  let first ← run.head?
  let last ← run.getLast?
  return first.span.hull last.span

def barSpans (m : BeatMap) (bar : Int) : List Span :=
  ((m.beatsInBar bar).splitBy fun a b => a.span.startLine == b.span.startLine).filterMap runSpan?

end BeatMap

/-! ## Distances in the text -/

def wordSize : Nat := 18446744073709551616

/-- The signed word that differs from an integer by a multiple of the word size. -/
def toWord (n : Int) : Int := Int.bmod n wordSize

def isWord (n : Int) : Bool := -9223372036854775808 ≤ n && n < 9223372036854775808

theorem toWord_eq_self {n : Int} (h : isWord n = true) : toWord n = n := by
  simp only [isWord, Bool.and_eq_true, decide_eq_true_eq] at h
  exact Int.bmod_eq_of_le (by simp only [wordSize]; omega) (by simp only [wordSize]; omega)

namespace Span

def exactDistance (s : Span) (offset : Int) : Int :=
  max (s.start - offset) 0 + max (offset - s.stop) 0

/-- The exact distance, but for every difference and the sum reduced to a word. -/
def wordDistance (s : Span) (offset : Int) : Int :=
  toWord (max (toWord (s.start - offset)) 0 + max (toWord (offset - s.stop)) 0)

/-- Whether no end of the span is a quarter of the word size in front of the text, and the start
not half of it behind the end. -/
def hasExactDistances (s : Span) : Bool :=
  -4611686018427387904 ≤ s.start && -4611686018427387904 ≤ s.stop &&
    s.start - s.stop < 9223372036854775808

def distance (s : Span) (offset : Int) : Int :=
  if s.hasExactDistances then s.exactDistance offset else s.wordDistance offset

def isInWords (s : Span) : Bool := isWord s.start && isWord s.stop

theorem wordDistance_eq_exactDistance {s : Span} {offset : Int} (hs : s.hasExactDistances = true)
    (hw : s.isInWords = true) (h0 : 0 ≤ offset) (h1 : offset < 4611686018427387904) :
    s.wordDistance offset = s.exactDistance offset := by
  simp only [hasExactDistances, isInWords, isWord, Bool.and_eq_true, decide_eq_true_eq] at hs hw
  unfold wordDistance exactDistance
  rw [toWord_eq_self (n := s.start - offset) (by simp [isWord]; omega),
    toWord_eq_self (n := offset - s.stop) (by simp [isWord]; omega), toWord_eq_self]
  simp only [isWord, Bool.and_eq_true, decide_eq_true_eq]
  omega

end Span

/-! ## From the text to the score -/

structure Cursor where
  line : Int
  column : Int
  position : ScorePosition
  /-- Whether an edit moved it. -/
  fromEdit : Bool
deriving Repr, DecidableEq, Inhabited

def Cursor.isMapped (c : Cursor) : Bool := c.position.bar != ScorePosition.nowhere.bar

/-- A cursor this far from every beat belongs to none. -/
def proximity : Int := 50

namespace BeatMap

def nearest? (m : BeatMap) (offset : Int) : Option Beat :=
  (earliestMin? (·.span.distance offset) m.beats).filter fun b => b.span.distance offset < proximity

def beatAt? (m : BeatMap) (offset : Int) : Option Beat :=
  if offset < m.contentStart then none
  else (m.beats.find? (·.span.contains offset)).or (m.nearest? offset)

def locate (m : BeatMap) (ix : LineIndex) (line column : Int) : Cursor :=
  let beat := m.beatAt? (ix.lineColToOffset line column)
  ⟨line, column, (beat.map Beat.position).getD .nowhere, false⟩

/-- There is no answer when distances are needed and an end of a span is no word. -/
def locate? (m : BeatMap) (ix : LineIndex) (line column : Int) : Option Cursor :=
  let offset := ix.lineColToOffset line column
  if offset < m.contentStart || m.beats.any (·.span.contains offset) ||
      m.beats.all (·.span.isInWords) then
    some (m.locate ix line column)
  else none

end BeatMap

def locate (text : List Char) (line column : Int) : Cursor :=
  (BeatMap.ofText text).locate (.ofText text) line column

end Tablature
