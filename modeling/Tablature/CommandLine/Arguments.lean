import Tablature.CommandLine.UsageError
import Tablature.Text.Characters

/-!
# Options and arguments

The words of a command line are options, flags and arguments. An option takes a
value, which may be joined to it by an equals sign; of several values the last
one counts. A flag takes none, and short flags may share one dash. A double dash
ends options and flags. Values are checked in this order: the options as they
were given, the arguments, and then the options that are missing.

An option that nobody knows may be like some that there are. Two words are
compared by their longest common block, and what stands to the left and to the
right of it is compared in the same way. Words are alike when the blocks make up
three fifths of both. Of two blocks of one length the earlier one counts.
-/

namespace Tablature

/-! ## Similar words -/

structure Block where
  left : Nat
  right : Nat
  size : Nat
deriving Repr, DecidableEq

def sharedFront : List Char → List Char → Nat
  | a :: as, b :: bs => if a = b then sharedFront as bs + 1 else 0
  | _, _ => 0

def longest : List Block → Block
  | [] => ⟨0, 0, 0⟩
  | x :: xs =>
    let y := longest xs
    if y.size ≤ x.size then x else y

def commonBlock (as bs : List Char) : Block :=
  longest ((List.range as.length).flatMap fun i =>
    (List.range bs.length).map fun j => ⟨i, j, sharedFront (as.drop i) (bs.drop j)⟩)

def sharedLength (as bs : List Char) : Nat :=
  match commonBlock as bs with
  | ⟨i, j, size⟩ =>
    if _h : 0 < size ∧ i < as.length then
      sharedLength (as.take i) (bs.take j) + size +
        sharedLength (as.drop (i + size)) (bs.drop (j + size))
    else 0
termination_by as.length
decreasing_by
  · rw [List.length_take]; omega
  · rw [List.length_drop]; omega

def areAlike (as bs : List Char) : Bool :=
  let both := as.length + bs.length
  3 * both ≤ 10 * min as.length bs.length && 3 * both ≤ 10 * sharedLength as bs

/-! ## Words of a command line -/

/-- A word that asks for an option or flag. A single dash is an argument. -/
def isOptionWord (word : String) : Bool :=
  match word.toList with
  | '-' :: _ :: _ => true
  | _ => false

def splitOption (word : String) : String × Option String :=
  let cs := word.toList
  match cs.dropWhile (· != '=') with
  | [] => (word, none)
  | _ :: value => (.ofList (cs.takeWhile (· != '=')), some (.ofList value))

structure OptionNames where
  options : List String
  flags : List String
  /-- The letters of short flags, with the flags that they stand for. -/
  letters : List (Char × String)
  /-- Whether options may stand behind arguments. -/
  mixed : Bool
deriving Repr, DecidableEq

namespace OptionNames

def alike (names : OptionNames) (name : String) : List String :=
  ((names.options ++ names.flags).filter fun known => areAlike known.toList name.toList).mergeSort

def flagsOfLetters (names : OptionNames) (letters : List Char) : Except UsageError (List String) :=
  letters.mapM fun c =>
    match names.letters.lookup c with
    | some flag => .ok flag
    | none => .error (.unknownOption (.ofList ['-', c]) [])

def readFlags (names : OptionNames) (word : String) : Except UsageError (List String) :=
  let (name, joined) := splitOption word
  if names.flags.contains name then
    if joined.isSome then .error (.takesNoValue name) else .ok [name]
  else
    match word.toList with
    | '-' :: '-' :: _ => .error (.unknownOption name (names.alike name))
    | cs => names.flagsOfLetters cs.tail

end OptionNames

structure Arguments where
  /-- The options with their values, as they were given. -/
  options : List (String × String)
  /-- The flags, as they were given. -/
  flags : List String
  positionals : List String
deriving Repr, DecidableEq

namespace Arguments

def addOption (a : Arguments) (name value : String) : Arguments :=
  { a with options := (name, value) :: a.options }

def addFlags (a : Arguments) (flags : List String) : Arguments :=
  { a with flags := flags ++ a.flags }

def addPositional (a : Arguments) (word : String) : Arguments :=
  { a with positionals := word :: a.positionals }

def ofWords (names : OptionNames) : List String → Except UsageError Arguments
  | [] => .ok ⟨[], [], []⟩
  | "--" :: words => .ok ⟨[], [], words⟩
  | word :: words =>
    if !isOptionWord word then
      if names.mixed then return (← ofWords names words).addPositional word
      else .ok ⟨[], [], word :: words⟩
    else
      let (name, joined) := splitOption word
      if names.options.contains name then
        match joined, words with
        | some value, words => return (← ofWords names words).addOption name value
        | none, value :: words => return (← ofWords names words).addOption name value
        | none, [] => .error (.lacksValue name)
      else do
        let flags ← names.readFlags word
        return (← ofWords names words).addFlags flags

/-- Reads the options that were given, each by its last value, in the order in which they first
stand. -/
def readOptions {α : Type} (a : Arguments) (read : String → Except ValueFault α) :
    Except UsageError (List (String × α)) :=
  (a.options.map Prod.fst).eraseDups.mapM fun name =>
    let value := (a.options.reverse.lookup name).getD ""
    match read value with
    | .ok v => .ok (name, v)
    | .error fault => .error (.invalid name fault)

def readArgument {α : Type} (a : Arguments) (place : Nat) (name : String)
    (read : String → Except ValueFault α) : Except UsageError α :=
  match a.positionals[place]? with
  | none => .error (.missingArgument name)
  | some value => (read value).mapError (.invalid name)

def noMore (a : Arguments) (count : Nat) : Except UsageError Unit :=
  match a.positionals.drop count with
  | [] => .ok ()
  | extra => .error (.extraArguments extra)

end Arguments

def readIndex (value : String) : Except ValueFault Int :=
  match readInt? value.toList with
  | none => .error (.noIndex value)
  | some n => if n < 0 then .error (.negative n) else .ok n

end Tablature
