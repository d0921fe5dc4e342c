import Tablature.Notation.Lexeme
import Tablature.Notation.Mark
import Tablature.Notation.Modifier
import Tablature.Text.LineIndex

/-!
# Beat maps

A beat has a place in the score, which is a bar and a number within the bar, and
a place in the text, which is a span. Bars, beats, lines and columns count from
zero.

A beat map lists the beats of a text in order and tells where its notation
begins. Each bar line raises the bar and starts the beats of the bar anew; each
token that is not a modifier is a beat.
-/

namespace Tablature

/-! ## Beats, spans and selections -/

structure ScorePosition where
  bar : Int
  beat : Int
deriving Repr, DecidableEq, Inhabited

def ScorePosition.nowhere : ScorePosition := ⟨-1, -1⟩

structure Span where
  start : Int
  stop : Int
  startLine : Int
  startColumn : Int
  endLine : Int
  endColumn : Int
deriving Repr, DecidableEq, Inhabited

namespace Span

/-- Whether an offset touches the span. The offset just past it does. -/
def contains (s : Span) (offset : Int) : Bool := s.start ≤ offset && offset ≤ s.stop

def hull (first last : Span) : Span :=
  { first with stop := last.stop, endLine := last.endLine, endColumn := last.endColumn }

end Span

structure Beat where
  position : ScorePosition
  span : Span
deriving Repr, DecidableEq, Inhabited

structure Selection where
  first : ScorePosition
  last : ScorePosition
deriving Repr, DecidableEq, Inhabited

/-! ## Beat maps -/

def slice (text : List Char) (start stop : Nat) : List Char := (text.drop start).take (stop - start)

def LineIndex.span (ix : LineIndex) (start stop : Nat) : Span :=
  let first := ix.offsetToLineCol start
  let last := ix.offsetToLineCol stop
  ⟨start, stop, first.1, first.2, last.1, last.2⟩

/-- The beats of a list of marks, which begins in the given bar after the given number of its
beats. -/
def numberBeats (text : List Char) (ix : LineIndex) : (bar beat : Nat) → List Mark → List Beat
  | _, _, [] => []
  | bar, _, .bar :: ms => numberBeats text ix (bar + 1) 0 ms
  | bar, beat, .token start stop :: ms =>
    match modifierLength? (slice text start stop) with
    | none => numberBeats text ix bar beat ms
    | some n => ⟨⟨bar, beat⟩, ix.span (start + n) stop⟩ :: numberBeats text ix bar (beat + 1) ms

def beatsFrom (text : List Char) (start : Nat) : List Beat :=
  numberBeats text (.ofText text) 0 0 (marksFrom text start)

structure BeatMap where
  beats : List Beat
  contentStart : Int
deriving Repr, DecidableEq, Inhabited

namespace BeatMap

def ofText (text : List Char) : BeatMap :=
  ⟨beatsFrom text (startOfContent text), startOfContent text⟩

/-- How many bars have a beat. -/
def barCount (m : BeatMap) : Nat := (m.beats.map (·.position.bar)).eraseDups.length

def beatsInBar (m : BeatMap) (bar : Int) : List Beat := m.beats.filter (·.position.bar == bar)

def find? (m : BeatMap) (p : ScorePosition) : Option Beat := m.beats.find? (·.position == p)

def firstInBar? (m : BeatMap) (bar : Int) : Option Beat := m.beats.find? (·.position.bar == bar)

end BeatMap

end Tablature
