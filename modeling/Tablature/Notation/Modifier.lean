import Tablature.Text.Characters

/-!
# Modifiers

A token may be a modifier and no beat: a duration such as `:4`, `:8.` or
`:8{tu 3}`, or a lone annotation such as `{dy fff}`. A duration may also be
glued to the front of a beat, as in `:8(3.2 0.3)`; it is then left out of the
beat's span. A glued duration has one of eight note values, so that `:83.2` is
the duration `:8` and the beat `3.2`.
-/

namespace Tablature

/-- The note values that a glued duration may have, longer numerals first. -/
def noteValues : List (List Char) :=
  [['1', '2', '8'], ['6', '4'], ['3', '2'], ['1', '6'], ['8'], ['4'], ['2'], ['1']]

def after? : (front cs : List Char) → Option (List Char)
  | [], cs => some cs
  | _ :: _, [] => none
  | a :: front, c :: cs => if a = c then after? front cs else none

/-- What follows an annotation: a brace, anything but braces, a closing brace. -/
def afterBraces? : List Char → Option (List Char)
  | '{' :: cs =>
    match cs.dropWhile fun c => c != '{' && c != '}' with
    | '}' :: rest => some rest
    | _ => none
  | _ => none

def dropBraces (cs : List Char) : List Char := (afterBraces? cs).getD cs

def dropDot : List Char → List Char
  | '.' :: cs => cs
  | cs => cs

def dropLastDot : List Char → List Char
  | '.' :: cs => if cs.head?.any isDecimalDigit then '.' :: cs else cs
  | cs => cs

def isLoneEffect (token : List Char) : Bool := afterBraces? token == some []

def isDuration : List Char → Bool
  | ':' :: cs =>
    cs.head?.any isDecimalDigit && (dropBraces (dropDot (cs.dropWhile isDecimalDigit))).isEmpty
  | _ => false

def isModifier (token : List Char) : Bool := isDuration token || isLoneEffect token

def afterDuration? : List Char → Option (List Char)
  | ':' :: cs => (noteValues.findSome? (after? · cs)).map fun rest => dropBraces (dropLastDot rest)
  | _ => none

/-- How many characters at the front of a token are not part of its beat; `none` when the token is
a modifier. A duration with nothing after it is kept whole. -/
def modifierLength? (token : List Char) : Option Nat :=
  if isModifier token then none
  else
    match afterDuration? token with
    | some [] => some 0
    | some rest => some (token.length - rest.length)
    | none => some 0

theorem modifierLength?_lt {token : List Char} {n : Nat} (h : modifierLength? token = some n)
    (hne : token ≠ []) : n < token.length := by
  have hpos : 0 < token.length := List.length_pos_iff.mpr hne
  unfold modifierLength? at h
  split at h
  · cases h
  · split at h
    · cases h; exact hpos
    · rename_i rest hrest _
      cases h
      have : 0 < rest.length := List.length_pos_iff.mpr fun e => by
        subst e; exact hrest rfl
      omega
    · cases h; exact hpos

end Tablature
