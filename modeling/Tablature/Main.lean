import Tablature.CommandLine.Report

/-!
# The command

Looks up the files that the arguments name, and prints what the command line
answers.
-/

def lookUpFile (name : String) : IO Tablature.FileEntry := do
  match ← (IO.FS.readBinFile name).toBaseIO with
  | .ok bytes => return .file bytes
  | .error (.inappropriateType ..) => return .directory
  | .error _ => return .missing

def main (args : List String) : IO UInt32 := do
  let entries ← args.mapM fun name => return (name, ← lookUpFile name)
  match Tablature.runCommandLine (fun name => (entries.lookup name).getD .missing) args with
  | .printed p =>
    IO.print p.stdout
    IO.eprint p.stderr
    return p.exitCode.toUInt32
  | .broken .undecodable =>
    IO.eprintln "The file is not UTF-8 text."
    return 1
  | .broken .noFileName =>
    IO.eprintln "The name of the file holds a null character."
    return 1
