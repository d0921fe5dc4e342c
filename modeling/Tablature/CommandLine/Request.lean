import Tablature.CommandLine.Arguments
import Tablature.Score.BeatMap

/-!
# Requests

What the command line is asked to do.
-/

namespace Tablature

inductive FileEntry where
  | missing
  | directory
  | file (bytes : ByteArray)

inductive Request where
  | help
  | version
  /-- Lists the beats, all or those of a bar. -/
  | beats (source : String) (bar : Option Int)
  /-- Tells the beat of a line and column. -/
  | locate (source : String) (line column : Int)
  /-- Shows the text of a selection. -/
  | select (source : String) (selection : Selection)
  /-- Shows the text of the beat that is played. -/
  | playback (source : String) (position : ScorePosition)
  /-- Shows the text of a bar. -/
  | bar (source : String) (bar : Int)
deriving Repr, DecidableEq

/-- A beat is written `BAR` or `BAR:BEAT`, and without a number it is the first one of its bar. -/
def readBeat (value : String) : Except ValueFault ScorePosition :=
  let cs := value.toList
  let digits := (cs.dropWhile (· != ':')).drop 1
  match readInt? (cs.takeWhile (· != ':')), if digits.isEmpty then some 0 else readInt? digits with
  | some bar, some beat => if bar < 0 || beat < 0 then .error .negativeBeat else .ok ⟨bar, beat⟩
  | _, _ => .error (.noBeat value)

def readSource (files : String → FileEntry) (value : String) : Except ValueFault String :=
  if value.toList.contains '\x00' then .error .noFileName
  else
    match files value with
    | .file _ => .ok value
    | .directory => .error (.isDirectory value)
    | .missing => .error (.noFile value)

namespace Request

/-- What may stand in front of the command. -/
def outerNames : OptionNames :=
  ⟨[], ["--version", "--verbose", "--help"], [('v', "--verbose"), ('h', "--help")], false⟩

/-- What may stand behind a command with the given options. -/
def innerNames (options : List String) : OptionNames := ⟨options, ["--help"], [('h', "--help")], true⟩

def optionsOf? : (command : String) → Option (List String)
  | "beats" => some ["--bar"]
  | "locate" => some []
  | "select" => some ["--start", "--end"]
  | "playback" => some []
  | "bar" => some []
  | _ => none

def ofArguments (files : String → FileEntry) (command : String) (a : Arguments) :
    Except UsageError Request :=
  match command with
  | "beats" => do
    let options ← a.readOptions readIndex
    let source ← a.readArgument 0 "SOURCE" (readSource files)
    a.noMore 1
    return .beats source (options.lookup "--bar")
  | "locate" => do
    let source ← a.readArgument 0 "SOURCE" (readSource files)
    let line ← a.readArgument 1 "LINE" readIndex
    let column ← a.readArgument 2 "COLUMN" readIndex
    a.noMore 3
    return .locate source line column
  | "select" => do
    let options ← a.readOptions readBeat
    let source ← a.readArgument 0 "SOURCE" (readSource files)
    match options.lookup "--start" with
    | none => .error (.missingOption "--start")
    | some first =>
      a.noMore 1
      return .select source ⟨first, (options.lookup "--end").getD first⟩
  | "playback" => do
    let source ← a.readArgument 0 "SOURCE" (readSource files)
    let bar ← a.readArgument 1 "BAR" readIndex
    let beat ← if a.positionals.length ≤ 2 then pure 0 else a.readArgument 2 "[BEAT]" readIndex
    a.noMore 3
    return .playback source ⟨bar, beat⟩
  | "bar" => do
    let source ← a.readArgument 0 "SOURCE" (readSource files)
    let bar ← a.readArgument 1 "BAR" readIndex
    a.noMore 2
    return .bar source bar
  | _ => .error (.unknownCommand command)

/-- The request of a command and the words after it. An unknown command may turn out to be a
flag. -/
def ofCommand (files : String → FileEntry) (command : String) (words : List String) :
    Except UsageError Request :=
  match optionsOf? command with
  | some options => do
    let a ← Arguments.ofWords (innerNames options) words
    if a.flags.contains "--help" then return .help else ofArguments files command a
  | none => do
    let a ← Arguments.ofWords outerNames (command :: words)
    match a.flags.find? (· != "--verbose") with
    | some "--version" => return .version
    | some _ => return .help
    | none => .error (.unknownCommand command)

/-- The request of the words of a command line. Of the flags that ask for something else than the
command, the first one counts. -/
def ofWords (files : String → FileEntry) (words : List String) : Except UsageError Request := do
  let a ← Arguments.ofWords outerNames words
  match a.flags.find? (· != "--verbose"), a.positionals with
  | some "--version", _ => return .version
  | some _, _ => return .help
  | none, [] => .error .missingCommand
  | none, command :: rest => ofCommand files command rest

end Request

end Tablature
