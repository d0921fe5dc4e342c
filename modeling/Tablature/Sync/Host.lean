import Tablature.Highlight.DecorationSet

/-!
# The editor as a host

A host is what a text editor answers when it is called. Any call may fail; a
failing call gives no answer. The calls that change what the editor shows are
logged in order, with their outcome.

A highlight that is inside the comfort band of the viewport stays where it is.
Otherwise the editor scrolls it to a margin below the top. The margin is the floor
of a double: a finite one is `m · 2 ^ e` for integers `m` and `e`, so its floor is
exact however large it is.
-/

namespace Tablature

/-! ## The floor of a double -/

inductive FloorError where
  | infinite
  | undefined
deriving Repr, DecidableEq

def FloorError.message : FloorError → String
  | .infinite => "cannot convert float infinity to integer"
  | .undefined => "cannot convert float NaN to integer"

def floorScaled (m e : Int) : Int :=
  if 0 ≤ e then m * Nat.pow 2 e.toNat else m / Nat.pow 2 (-e).toNat

def fieldSize (n : Nat) : Nat := Nat.pow 2 n

/-- The floor of the double with the given bits: a sign, eleven bits of exponent and fifty-two bits
of fraction. The least exponent has no implicit leading one, the greatest marks what is not a
number. -/
def floorOfBits (bits : Nat) : Except FloorError Int :=
  let fraction := bits % fieldSize 52
  let exponent := bits / fieldSize 52 % fieldSize 11
  let sign : Int := if bits < fieldSize 63 then 1 else -1
  if exponent = fieldSize 11 - 1 then .error (if fraction = 0 then .infinite else .undefined)
  else if exponent = 0 then .ok (floorScaled (sign * fraction) (-1074))
  else .ok (floorScaled (sign * (fraction + fieldSize 52 : Nat)) (exponent - 1075))

def exactFloor (x : Float) : Except FloorError Int := floorOfBits x.toBits.toNat

/-! ## When to scroll -/

structure Viewport where
  top : Float
  height : Float

/-- A comfort band in fractions of the viewport's height, and the margin to leave above. -/
structure ScrollPolicy where
  topFraction : Float
  bottomFraction : Float
  /-- The margin as a fraction of the height; zero asks for the fixed margin. -/
  marginFraction : Float
  fixedMargin : Int

namespace ScrollPolicy

/-- Follows playback: a narrow band and a small margin keep the movement smooth. -/
def playback : ScrollPolicy := ⟨0.15, 0.70, 0.0, 50⟩

/-- Shows the parked bar once: a wide band, and a third of the way down. -/
def parked : ScrollPolicy := ⟨0.20, 0.80, 0.33, 0⟩

/-- Whether a highlight whose top is at `coord` lies outside the band. What is not rendered does. -/
def needsScroll (p : ScrollPolicy) (coord : Option Float) (v : Viewport) : Bool :=
  match coord with
  | none => true
  | some y => y < v.top + v.height * p.topFraction || v.top + v.height * p.bottomFraction < y

def margin (p : ScrollPolicy) (v : Viewport) : Except FloorError Int :=
  if p.marginFraction != 0.0 then exactFloor (v.height * p.marginFraction) else .ok p.fixedMargin

end ScrollPolicy

inductive ScrollKind where
  | playback
  | parked
deriving Repr, DecidableEq

def ScrollKind.policy : ScrollKind → ScrollPolicy
  | .playback => .playback
  | .parked => .parked

structure ScrollTarget where
  position : Int
  kind : ScrollKind
deriving Repr, DecidableEq

/-- Asks the editor to put a position `margin` pixels below the top of the viewport. -/
structure ScrollRequest where
  position : Int
  margin : Int
deriving Repr, DecidableEq

/-! ## Hosts -/

inductive Attachment where
  | attached
  | detached
  | failing
deriving Repr, DecidableEq

/-- An editor that cannot tell counts as gone. -/
def Attachment.isAttached (a : Attachment) : Bool := a == .attached

structure Host where
  attachment : Attachment
  documentLength : Option Int
  viewport : Option Viewport
  /-- The top of a position in pixels; `some none` when it is not rendered. -/
  coordsAt : Int → Option (Option Float)
  /-- Whether the editor takes the given decorations as the new content of a layer. -/
  accepts : Style → DecorationSet → Bool
  acceptsScroll : Bool

inductive HostCall where
  | apply (style : Style) (decorations : DecorationSet) (accepted : Bool)
  | scroll (request : ScrollRequest) (accepted : Bool)
deriving Repr, DecidableEq

namespace Host

/-- The scroll that brings a target into view; none when it is in view or a question fails. -/
def scrollRequest? (host : Host) (target : ScrollTarget) : Option ScrollRequest := do
  let length ← host.documentLength
  let position := min (max target.position 0) length
  let viewport ← host.viewport
  let coord ← host.coordsAt position
  let policy := target.kind.policy
  if policy.needsScroll coord viewport then
    let margin ← (policy.margin viewport).toOption
    some ⟨position, margin⟩
  else none

def scrollTo (host : Host) (target : ScrollTarget) : List HostCall :=
  ((host.scrollRequest? target).map (.scroll · host.acceptsScroll)).toList

end Host

end Tablature
