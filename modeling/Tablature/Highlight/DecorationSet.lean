import Tablature.Highlight.ChangeSet
import Tablature.Score.BeatMap

/-!
# Decorations

A decoration shows a stretch of text in a style; an editor shows one layer of
highlights for each style. A decoration set belongs to a text of a certain
length. It is built from spans, which are cut to the text and sorted, and it is
carried through edits as long as no decoration vanishes.
-/

namespace Tablature

/-! ## Styles -/

inductive Style where
  | selection
  | playback
  | parkedBar
deriving Repr, DecidableEq, Inhabited

namespace Style

def all : List Style := [.selection, .playback, .parkedBar]

theorem mem_all (s : Style) : s ∈ all := by cases s <;> decide

def key : Style → String
  | .selection => "selection"
  | .playback => "live-playback"
  | .parkedBar => "parked-bar"

def cssClass : Style → String
  | .selection => "cm-score-selection-highlight"
  | .playback => "cm-playback-highlight"
  | .parkedBar => "cm-playback-bar-highlight"

end Style

/-! ## Decorations -/

structure Decoration where
  start : Int
  stop : Int
  style : Style
deriving Repr, DecidableEq, Inhabited

def Decoration.before (d e : Decoration) : Bool :=
  d.start < e.start || (d.start == e.start && d.stop ≤ e.stop)

structure DecorationSet where
  decorations : List Decoration
  docLength : Int
deriving Repr, DecidableEq, Inhabited

inductive RemapError where
  /-- The edit was made to a text of another length. -/
  | lengthMismatch (changes decorations : Int)
  /-- The edit leaves nothing of a decoration. -/
  | removed (decoration : Decoration)
deriving Repr, DecidableEq

def RemapError.message : RemapError → String
  | .lengthMismatch n m => s!"Change set is for length {n}, decorations are for length {m}."
  | .removed d => s!"Edit removed decoration {d.start}-{d.stop}."

namespace DecorationSet

/-- The set of no decorations over a text of unknown length. -/
def empty : DecorationSet := ⟨[], 0⟩

def isEmpty (s : DecorationSet) : Bool := s.decorations.isEmpty

def size (s : DecorationSet) : Nat := s.decorations.length

def clamp (docLength pos : Int) : Int := max 0 (min pos docLength)

def decorate? (style : Style) (docLength : Int) (span : Span) : Option Decoration :=
  let start := clamp docLength span.start
  let stop := clamp docLength span.stop
  if start < stop then some ⟨start, stop, style⟩ else none

def build (spans : List Span) (style : Style) (docLength : Int) : DecorationSet :=
  ⟨(spans.filterMap (decorate? style docLength)).mergeSort Decoration.before, docLength⟩

/-- A decoration after an edit. It keeps to the characters that it covers. -/
def mapDecoration (cs : ChangeSet) (d : Decoration) : Except RemapError Decoration :=
  let start := cs.mapPos d.start .after
  let stop := cs.mapPos d.stop .before
  if start < stop then .ok ⟨start, stop, d.style⟩ else .error (.removed d)

/-- The decorations after an edit. A set without decorations can be carried through every edit. -/
def map (s : DecorationSet) (cs : ChangeSet) : Except RemapError DecorationSet :=
  if s.isEmpty then .ok ⟨[], cs.newLength⟩
  else if cs.oldLength ≠ s.docLength then .error (.lengthMismatch cs.oldLength s.docLength)
  else do
    let decorations ← s.decorations.mapM (mapDecoration cs)
    return ⟨decorations, cs.newLength⟩

end DecorationSet

end Tablature
