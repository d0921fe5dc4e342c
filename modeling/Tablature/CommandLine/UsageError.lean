import Tablature.Text.Characters

/-!
# Usage errors

What can be wrong with the arguments of the command line.
-/

namespace Tablature

inductive ValueFault where
  | noIndex (value : String)
  | negative (value : Int)
  | noBeat (value : String)
  | negativeBeat
  | noFile (value : String)
  | isDirectory (value : String)
  /-- No file can have this name. -/
  | noFileName
deriving Repr, DecidableEq

def quotedValue (value : String) : String := .ofList (quoted value.toList)

def ValueFault.message : ValueFault → String
  | noIndex value => s!"{quotedValue value} is not a valid integer range."
  | negative value => s!"{value} is not in the range x>=0."
  | noBeat value => s!"'{value}' is not BAR or BAR:BEAT."
  | negativeBeat => "Bar and beat indices are 0-based and cannot be negative."
  | noFile value => s!"File {quotedValue value} does not exist."
  | isDirectory value => s!"File {quotedValue value} is a directory."
  | noFileName => "embedded null byte"

inductive UsageError where
  | missingCommand
  | unknownCommand (name : String)
  /-- An option that nobody knows, with the options that are named alike. -/
  | unknownOption (name : String) (alike : List String)
  /-- An option stands last and lacks its value. -/
  | lacksValue (option : String)
  /-- An option has a value that it does not take. -/
  | takesNoValue (option : String)
  | missingOption (option : String)
  | missingArgument (name : String)
  | invalid (name : String) (fault : ValueFault)
  | extraArguments (arguments : List String)
deriving Repr, DecidableEq

def suggestion : List String → String
  | [] => ""
  | [name] => s!" Did you mean {name}?"
  | names =>
    let all := ", ".intercalate names
    s!" (Possible options: {all})"

def UsageError.message : UsageError → String
  | missingCommand => "Missing command."
  | unknownCommand name => s!"No such command {quotedValue name}."
  | unknownOption name alike => s!"No such option: {name}{suggestion alike}"
  | lacksValue option => s!"Option {quotedValue option} requires an argument."
  | takesNoValue option => s!"Option {quotedValue option} does not take a value."
  | missingOption option => s!"Missing option '{option}'."
  | missingArgument name => s!"Missing argument '{name}'."
  | invalid name fault => s!"Invalid value for '{name}': {fault.message}"
  | extraArguments [argument] => s!"Got unexpected extra argument ({argument})"
  | extraArguments arguments =>
    let all := " ".intercalate arguments
    s!"Got unexpected extra arguments ({all})"

end Tablature
