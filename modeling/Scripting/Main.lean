/-
The command `scripthost`. It reads the files that a command line asks for, hands over what it has
read, and prints the report.
-/
import Scripting.Cli.Basic

namespace Scripting.Cli

/-- The environment variables as the system lists them: a name, an equals sign and a value, each
ended by a zero. -/
def variablesOf (listing : String) : List (String × String) :=
  (listing.splitOn "\x00").filterMap fun entry =>
    match entry.splitOn "=" with
    | name :: value :: rest => some (name, String.intercalate "=" (value :: rest))
    | _ => none

/-- The content of a file, unless it cannot be read. -/
def contentOf (path : String) : IO (Option ByteArray) := do
  try
    return some (← IO.FS.readBinFile path)
  catch _ => return none

/-- Reads the files at some paths. -/
def contentsOf (files : List String) : IO (List (String × ByteArray)) := do
  let contents ← files.mapM fun path => return (← contentOf path).map (path, ·)
  return contents.filterMap fun c => c

end Scripting.Cli

open Scripting in
def main (args : List String) : IO UInt32 := do
  let listing ← Cli.contentOf "/proc/self/environ"
  let environment := Cli.variablesOf ((listing.bind String.fromUTF8?).getD "")
  let directory := (← IO.currentDir).toString
  let known (files : List (String × ByteArray)) : Cli.Surroundings :=
    { directory, environment, file? := fun path => files.lookup path }
  let first ← Cli.contentsOf (Cli.paths (known []) args)
  let files ← Cli.contentsOf (Cli.paths (known first) args)
  let report := Cli.run (known files) args
  IO.print report.output
  IO.eprint report.complaint
  return report.exitCode.toUInt32
