/-
The registry of executions: one entry for each thread name, the names that somebody is building for,
and the stop tokens of what is being made ready.
-/
import Scripting.Execution.Basic

namespace Scripting

/-- A thread of the host. -/
abbrev ThreadId := Nat

structure Registry where
  /-- The execution that was last registered under each thread name. -/
  entries : Assoc String ExecutionId := []
  /-- Who is building for a thread name; nobody else may meanwhile. -/
  builders : Assoc String ThreadId := []
  /-- The stop tokens of the builds that are resolving or compiling. -/
  compiling : Assoc String TokenId := []
  deriving Inhabited

/-- What is asked of the registry: an execution for a thread name. -/
structure Order where
  threadName : String
  sourceId : String
  functionName : String := "main"
  params : List Value := []
  deriving Inhabited

/-- Why an order is not fulfilled. -/
inductive OrderError where
  | resolution (e : ResolutionError)
  | spawn (e : SpawnError)
  deriving DecidableEq

def OrderError.message : OrderError → String
  | .resolution e => e.message
  | .spawn e => e.message

end Scripting
