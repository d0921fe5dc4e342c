import Tablature.CommandLine.Request
import Tablature.Score.Lookup

/-!
# Reports

What the command line prints. Text is shown in short: runs of blanks become one
space, and a long text is cut.

Text for a terminal may be styled by sequences of characters: an escape, an
opening bracket, parameters and a letter. What is printed is plain text, which has
none of them. Dropping them once may leave a new one behind, which then stays.
-/

namespace Tablature

/-! ## Styling sequences -/

def isStylingParameter (c : Char) : Bool := c.isDigit || c == ';' || c == '?'

def afterStyling? : List Char → Option (List Char)
  | '\x1b' :: '[' :: cs =>
    match cs.dropWhile isStylingParameter with
    | c :: rest => if c.isAlpha then some rest else none
    | [] => none
  | _ => none

theorem length_of_afterStyling? {cs rest : List Char} (h : afterStyling? cs = some rest) :
    rest.length < cs.length := by
  unfold afterStyling? at h
  split at h
  · rename_i cs
    have hle : (cs.dropWhile isStylingParameter).length ≤ cs.length :=
      (List.dropWhile_sublist isStylingParameter).length_le
    split at h
    · rename_i c tail hc
      rw [hc] at hle
      split at h
      · cases h
        simp only [List.length_cons] at hle ⊢
        omega
      · exact nomatch h
    · exact nomatch h
  · exact nomatch h

def dropStyling : List Char → List Char
  | [] => []
  | c :: cs =>
    match _h : afterStyling? (c :: cs) with
    | some rest => dropStyling rest
    | none => c :: dropStyling cs
termination_by cs => cs.length
decreasing_by
  · exact length_of_afterStyling? _h
  · simp

/-! ## What is printed -/

structure Printed where
  exitCode : Nat
  stdout : String
  stderr : String
deriving Repr, DecidableEq

inductive Breakdown where
  /-- The file is no UTF-8 text. -/
  | undecodable
  /-- No file can have the name that was given. -/
  | noFileName
deriving Repr, DecidableEq

inductive Outcome where
  | printed (printed : Printed)
  | broken (cause : Breakdown)
deriving Repr, DecidableEq

/-- Each pair of carriage return and newline, and each carriage return, becomes a newline. -/
def unifyNewlines : List Char → List Char
  | [] => []
  | '\r' :: '\n' :: cs => '\n' :: unifyNewlines cs
  | '\r' :: cs => '\n' :: unifyNewlines cs
  | c :: cs => c :: unifyNewlines cs

/-- The run without a blank at the front of a text, which may be empty, and the words after it. -/
def firstRun : List Char → List Char × List (List Char)
  | [] => ([], [])
  | c :: cs =>
    let r := firstRun cs
    if isBlank c then ([], if r.1.isEmpty then r.2 else r.1 :: r.2) else (c :: r.1, r.2)

def words (cs : List Char) : List (List Char) :=
  let r := firstRun cs
  if r.1.isEmpty then r.2 else r.1 :: r.2

def snippetWidth : Nat := 40

def snippet (text : List Char) (s : Span) : String :=
  let flat := [' '].intercalate (words (slice text s.start.toNat s.stop.toNat))
  if flat.length ≤ snippetWidth then .ofList flat
  else .ofList (flat.take (snippetWidth - 3)) ++ "..."

def alignRight (width : Nat) (n : Int) : String :=
  let s := toString n
  "".pushn ' ' (width - s.length) ++ s

def alignLeft (width : Nat) (n : Int) : String :=
  let s := toString n
  s.pushn ' ' (width - s.length)

def spanLine (text : List Char) (s : Span) : String :=
  s!"  {s.startLine}:{s.startColumn}-{s.endLine}:{s.endColumn}  " ++
    s!"[{s.start}, {s.stop})  {snippet text s}\n"

def beatLine (text : List Char) (b : Beat) : String :=
  s!"  {alignRight 4 b.position.bar}  {alignRight 3 b.position.beat}  " ++
    s!"{alignRight 4 b.span.startLine}:{alignLeft 4 b.span.startColumn} {snippet text b.span}\n"

namespace Printed

def success (stdout : String) : Printed := ⟨0, stdout, ""⟩

def failure (message : String) : Printed := ⟨1, "", s!"  ERROR: {message}\n"⟩

def usage (e : UsageError) : Printed := ⟨2, "", s!"Error: {e.message}\n"⟩

def beats (text : List Char) (bar : Option Int) : Printed :=
  let m := BeatMap.ofText text
  let listed := (bar.map m.beatsInBar).getD m.beats
  success (s!"  Content starts at offset {m.contentStart}\n" ++
    s!"  {m.beats.length} beat(s) in {m.barCount} bar(s)\n\n" ++
    .join (listed.map (beatLine text)))

def locate (text : List Char) (line column : Int) : Printed :=
  let c := Tablature.locate text line column
  if c.isMapped then success s!"  Bar {c.position.bar}, beat {c.position.beat}\n"
  else failure s!"{line}:{column} is not inside any beat."

def select (text : List Char) (s : Selection) : Printed :=
  match (BeatMap.ofText text).selectionSpan? text.length s with
  | some span => success (spanLine text span)
  | none => failure "Selection does not map to any source text."

def emptyBar (bar : Int) : Printed := failure s!"Bar {bar} has no beats."

def playback (text : List Char) (p : ScorePosition) : Printed :=
  match (BeatMap.ofText text).playbackSpan? p with
  | some span => success (spanLine text span)
  | none => emptyBar p.bar

def bar (text : List Char) (bar : Int) : Printed :=
  match (BeatMap.ofText text).barSpans bar with
  | [] => emptyBar bar
  | spans => success (.join (spans.map (spanLine text)))

end Printed

def decodeText? (bytes : ByteArray) : Option (List Char) :=
  (String.fromUTF8? bytes).map fun s => unifyNewlines s.toList

def Outcome.ofFile (files : String → FileEntry) (source : String)
    (report : List Char → Printed) : Outcome :=
  match files source with
  | .file bytes =>
    match decodeText? bytes with
    | some text => .printed (report text)
    | none => .broken .undecodable
  | .missing => .printed (.usage (.invalid "SOURCE" (.noFile source)))
  | .directory => .printed (.usage (.invalid "SOURCE" (.isDirectory source)))

def Request.outcome (files : String → FileEntry) : Request → Outcome
  | .help => .printed (.success "Usage: tabsync [OPTIONS] COMMAND [ARGS]...\n")
  | .version => .printed (.success "tabsync, version 0.1.0\n")
  | .beats source only => .ofFile files source (Printed.beats · only)
  | .locate source line column => .ofFile files source (Printed.locate · line column)
  | .select source s => .ofFile files source (Printed.select · s)
  | .playback source p => .ofFile files source (Printed.playback · p)
  | .bar source n => .ofFile files source (Printed.bar · n)

def Printed.plain (p : Printed) : Printed :=
  { p with
    stdout := .ofList (dropStyling p.stdout.toList)
    stderr := .ofList (dropStyling p.stderr.toList) }

def Outcome.plain : Outcome → Outcome
  | .printed p => .printed p.plain
  | .broken cause => .broken cause

def runCommandLine (files : String → FileEntry) (words : List String) : Outcome :=
  match Request.ofWords files words with
  | .ok request => (request.outcome files).plain
  | .error (.invalid _ .noFileName) => .broken .noFileName
  | .error e => .printed (Printed.usage e).plain

end Tablature
