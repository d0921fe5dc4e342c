/-!
# Edits

A change replaces a stretch of the old text by some inserted characters. A
change set holds the changes of one edit, in order, apart from each other and
within the old text; all their positions are positions of the old text. It says
where a position of the old text is found in the new one.
-/

namespace Tablature

/-- Replaces the text from `start` up to `stop` by `inserted` characters. -/
structure TextChange where
  start : Int
  stop : Int
  inserted : Int
deriving Repr, DecidableEq, Inhabited

def TextChange.delta (c : TextChange) : Int := c.inserted - (c.stop - c.start)

def totalDelta : List TextChange → Int
  | [] => 0
  | c :: cs => c.delta + totalDelta cs

/-- Whether a change may stand before another one, by start and then by end. -/
def TextChange.before (c d : TextChange) : Bool :=
  c.start < d.start || (c.start == d.start && c.stop ≤ d.stop)

inductive ChangeSetError where
  /-- A change starts before the one in front of it has ended, or ends before it starts. -/
  | misplaced (change : TextChange)
  /-- A change leaves the old text or inserts less than nothing. -/
  | unfit (change : TextChange) (oldLength : Int)
deriving Repr, DecidableEq

def TextChange.describe (c : TextChange) : String :=
  s!"TextChange(start={c.start}, end={c.stop}, inserted_length={c.inserted})"

def ChangeSetError.message : ChangeSetError → String
  | .misplaced c => s!"Overlapping or inverted change {c.describe}."
  | .unfit c n => s!"Change {c.describe} does not fit a document of length {n}."

/-- The changes stand in order and apart, behind a position and within a text of the given
length. -/
def Fits (oldLength : Int) : (behind : Int) → List TextChange → Prop
  | _, [] => True
  | behind, c :: cs =>
    behind ≤ c.start ∧ c.start ≤ c.stop ∧ c.stop ≤ oldLength ∧ 0 ≤ c.inserted ∧
      Fits oldLength c.stop cs

def firstFault? (oldLength : Int) : (behind : Int) → List TextChange → Option ChangeSetError
  | _, [] => none
  | behind, c :: cs =>
    if c.start < behind ∨ c.stop < c.start then some (.misplaced c)
    else if oldLength < c.stop ∨ c.inserted < 0 then some (.unfit c oldLength)
    else firstFault? oldLength c.stop cs

theorem firstFault?_eq_none_iff {oldLength behind : Int} {cs : List TextChange} :
    firstFault? oldLength behind cs = none ↔ Fits oldLength behind cs := by
  induction cs generalizing behind with
  | nil => exact ⟨fun _ => trivial, fun _ => rfl⟩
  | cons c cs ih =>
    unfold firstFault? Fits
    split
    · rename_i h
      exact ⟨fun h' => (nomatch h'), fun h' => by omega⟩
    · rename_i h₁
      split
      · rename_i h₂
        exact ⟨fun h' => (nomatch h'), fun h' => by omega⟩
      · rename_i h₂
        rw [ih]
        exact ⟨fun h => ⟨by omega, by omega, by omega, by omega, h⟩, fun h => h.2.2.2.2⟩

structure ChangeSet where
  changes : List TextChange
  oldLength : Int
  fits : Fits oldLength 0 changes

namespace ChangeSet

def ofOrdered (oldLength : Int) (changes : List TextChange) : Except ChangeSetError ChangeSet :=
  match h : firstFault? oldLength 0 changes with
  | none => .ok ⟨changes, oldLength, firstFault?_eq_none_iff.mp h⟩
  | some e => .error e

def ofList (oldLength : Int) (changes : List TextChange) : Except ChangeSetError ChangeSet :=
  ofOrdered oldLength (changes.mergeSort TextChange.before)

def isEmpty (cs : ChangeSet) : Bool := cs.changes.isEmpty

def newLength (cs : ChangeSet) : Int := cs.oldLength + totalDelta cs.changes

end ChangeSet

inductive Side where
  | before
  | after
deriving Repr, DecidableEq

def Side.ofBias (bias : Int) : Side := if 0 < bias then .after else .before

def Side.past (side : Side) (inserted : Int) : Int :=
  match side with
  | .before => 0
  | .after => inserted

/-- The new place of an old position, when the changes in front have moved it by `shift`. -/
def mapThrough (pos : Int) (side : Side) : (shift : Int) → List TextChange → Int
  | shift, [] => pos + shift
  | shift, c :: cs =>
    if pos < c.start then pos + shift
    else if c.stop < pos then mapThrough pos side (shift + c.delta) cs
    else if c.start = c.stop then c.start + shift + side.past c.inserted
    else if pos = c.start then c.start + shift
    else if pos = c.stop then c.start + shift + c.inserted
    else c.start + shift + side.past c.inserted

/-- The new place of an old position. A position that an insertion touches, or that lies within a
replaced stretch, goes to the given side of the new text; the ends of a replaced stretch stay
outside of it. -/
def ChangeSet.mapPos (cs : ChangeSet) (pos : Int) (side : Side) : Int :=
  mapThrough pos side 0 cs.changes

end Tablature
