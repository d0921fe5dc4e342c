import Tablature.Highlight.DecorationSet

/-!
# Layers

A layer is the decoration set of one style. A transaction replaces the layers
that its effects name and carries the others through its edit. A layer that can
neither be built nor carried is cleared.
-/

namespace Tablature

inductive LayerContent where
  | clear
  | install (spans : List Span)
  /-- Spans of which one could not be found. -/
  | unusable
deriving Repr, DecidableEq

structure LayerEffect where
  style : Style
  content : LayerContent
deriving Repr, DecidableEq

namespace LayerEffect

def clear (style : Style) : LayerEffect := ⟨style, .clear⟩

def install (style : Style) (spans : List Span) : LayerEffect := ⟨style, .install spans⟩

def installFound (style : Style) (spans : List (Option Span)) : LayerEffect :=
  match spans.mapM id with
  | some found => install style found
  | none => ⟨style, .unusable⟩

def spans? (e : LayerEffect) : Option (List Span) :=
  match e.content with
  | .install spans => some spans
  | .clear | .unusable => none

/-- Whether the effect leaves nothing on its layer by intent. -/
def clears (e : LayerEffect) : Bool :=
  match e.content with
  | .clear => true
  | .install spans => spans.isEmpty
  | .unusable => false

def layer (e : LayerEffect) (docLength : Int) : DecorationSet :=
  match e.content with
  | .clear | .unusable => .empty
  | .install [] => .empty
  | .install spans => .build spans e.style docLength

end LayerEffect

structure Transaction where
  effects : List LayerEffect
  changes : Option ChangeSet
  /-- The length of the text afterwards. -/
  docLength : Int

/-- The layer after a transaction. Of several effects on the layer the last one counts, and an edit
counts only when there is none. -/
def updateLayer (style : Style) (current : DecorationSet) (t : Transaction) : DecorationSet :=
  match (t.effects.filter (·.style == style)).getLast? with
  | some e => e.layer t.docLength
  | none =>
    match t.changes with
    | none => current
    | some cs =>
      if cs.isEmpty then current
      else
        match current.map cs with
        | .ok mapped => mapped
        | .error _ => .empty

end Tablature
