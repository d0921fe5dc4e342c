import Tablature.Highlight.Layer
import Tablature.Score.Lookup
import Tablature.Sync.Host

/-!
# Planning highlights

The state of the score and the player decides on one mode, and the mode decides
what each layer shows. A plan has one effect for each layer. It clears layers
before it fills one, so no two highlights of playback are ever shown together.
-/

namespace Tablature

structure SyncInputs where
  text : List Char
  selection : Option Selection
  playback : Option ScorePosition
  /-- Where the player is parked. -/
  cursor : Option ScorePosition
  isPlaying : Bool
deriving Repr, DecidableEq

def SyncInputs.initial : SyncInputs := ⟨[], none, none, none, false⟩

inductive Mode where
  | idle
  | selection (selection : Selection)
  | playback (position : ScorePosition)
  | parked (position : ScorePosition)
deriving Repr, DecidableEq

namespace Mode

/-- Playing comes before all else, and a selection before the parked cursor. -/
def ofInputs (inputs : SyncInputs) : Mode :=
  if inputs.isPlaying then (inputs.playback.map playback).getD idle
  else ((inputs.selection.map selection).or (inputs.cursor.map parked)).getD idle

def style? : Mode → Option Style
  | idle => none
  | selection _ => some .selection
  | playback _ => some .playback
  | parked _ => some .parkedBar

def scrollKind? : Mode → Option ScrollKind
  | idle | selection _ => none
  | playback _ => some .playback
  | parked _ => some .parked

def spans (mode : Mode) (m : BeatMap) (textLength : Nat) : List Span :=
  match mode with
  | idle => []
  | selection s => (m.selectionSpan? textLength s).toList
  | playback p => (m.playbackSpan? p).toList
  | parked p => m.barSpans p.bar

end Mode

structure Plan where
  mode : Mode
  effects : List LayerEffect
  scroll : Option ScrollTarget
deriving Repr, DecidableEq

namespace Plan

def clearAll (mode : Mode) : Plan := ⟨mode, Style.all.map .clear, none⟩

def fill (mode : Mode) (style : Style) (first : Span) (rest : List Span) : Plan :=
  ⟨mode, (Style.all.filter (· != style)).map .clear ++ [.install style (first :: rest)],
    mode.scrollKind?.map (⟨first.start, ·⟩)⟩

def ofInputs (inputs : SyncInputs) : Plan :=
  let mode := Mode.ofInputs inputs
  match mode.style?, mode.spans (.ofText inputs.text) inputs.text.length with
  | some style, first :: rest => fill mode style first rest
  | _, _ => clearAll mode

end Plan

end Tablature
