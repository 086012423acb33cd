/-
Running a command line: the script runs on a thread of its own until it ends, and the user gets its
value or is told why there is none.
-/
import Scripting.Cli.Arguments
import Scripting.Host.Setup

namespace Scripting.Cli

/-- Where a command line is run. -/
structure Surroundings where
  /-- The working directory. -/
  directory : String := ""
  /-- The content of the file at a path. -/
  file? : String → Option ByteArray
  /-- The environment variables. -/
  environment : List (String × String) := []
  /-- The time, in milliseconds. -/
  clock : Nat := 0
  /-- Whether the user interrupts a script that does not end by itself. -/
  interrupts : Bool := false

/-- What a user gets. -/
structure Report where
  exitCode : Nat := 0
  output : String := ""
  complaint : String := ""
  deriving DecidableEq

namespace Report

/-- The report on a failure, with what caused it if it has a cause. -/
def failure (text : String) (cause : Option String) : Report :=
  let causeText := match cause with
    | some c => "\n\nCaused by:\n    " ++ String.intercalate "\n    " (c.splitOn "\n")
    | none => ""
  { exitCode := 1, complaint := "Error: " ++ text ++ causeText ++ "\n" }

/-- The report on a command line that asks for nothing. -/
def usage (e : UsageError) : Report :=
  { exitCode := 2, complaint := "error: " ++ e.message ++ "\n" }

end Report

/-- The value of an argument: what it stands for as JSON, else its text. -/
def argumentValue (s : String) : Value :=
  match Json.parse? s with
  | some j => Value.ofJson j
  | none => .string s

/-- A path as errors show it: from the working directory if it is below it. -/
def shownPath (directory path : String) : String :=
  let above := directory ++ "/"
  if !directory.isEmpty && path.startsWith above then (path.drop above.length).toString else path

/-- The name and the text of the configuration, if there is one at its path. -/
def configFile (s : Surroundings) (path : Option String) : Option (String × String) := do
  let path ← path
  let content ← s.file? path
  return (shownPath s.directory path, (String.fromUTF8? content).getD "\x00")

/-- The time that a user gives a script, in milliseconds. -/
def patienceMillis : Nat := 100

/-- Waits until an execution has finished, or interrupts it. -/
def await (interrupts : Bool) (h : Host) (id : ExecutionId) : Host :=
  if interrupts then
    match h.waitFinished id (some (h.clock + patienceMillis)) with
    | (h, true) => h
    | (h, false) => h.stopAll.join id
  else h.join id

/-- The report on an execution that has finished. -/
def reportOn (threadName : String) (o : Outcome) : Report :=
  match o.failure, o.value with
  | some text, _ => .failure (threadName ++ " failed: " ++ text) none
  | none, some v => if v.isVoid then {} else { output := v.text ++ "\n" }
  | none, none => {}

/-- Runs a script on a host. -/
def perform (s : Surroundings) (h : Host) (i : Invocation) : Report :=
  let threadName := i.threadName.getD i.script
  let order : Order := {
    threadName, sourceId := i.script, functionName := i.functionName
    params := i.arguments.map argumentValue }
  match h.fulfil order true with
  | (h, some (.ok id)) =>
    reportOn threadName ((((await s.interrupts h id).execution? id).map (·.outcome)).getD {})
  | (_, some (.error e)) => .failure ("failed to start " ++ i.script) (some e.message)
  | (_, none) => .failure ("failed to start " ++ i.script) none

/-- The paths of the files that a command line may read, as far as the files that are known tell. -/
def paths (s : Surroundings) (args : List String) : List String :=
  match read args with
  | .ok (.run i) =>
    i.config.toList ++
      match Config.load (configFile s i.config) s.environment with
      | .ok c => Resolver.candidates c.scriptDirectories i.script
      | .error _ => []
  | _ => []

/-- Runs a command line. -/
def run (s : Surroundings) (args : List String) : Report :=
  match read args with
  | .error e => .usage e
  | .ok .help => { output := helpText }
  | .ok (.run i) =>
    match Config.load (configFile s i.config) s.environment with
    | .error e => .failure "failed to load configuration" (some e.message)
    | .ok c =>
      let h := Host.ofConfig c (Resolver.ofDirectories s.file? c.scriptDirectories)
      perform s { h with clock := s.clock } i

end Scripting.Cli
