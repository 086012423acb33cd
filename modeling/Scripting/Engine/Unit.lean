/-
Units of scripts: the compiler evaluates all sources on a new engine, and the unit then calls a
function that they have left behind. A unit that was stopped is never said to have failed.
-/
import Scripting.Engine.Basic
import Scripting.Execution.Basic

namespace Scripting

/-- Scripts that are ready to run. -/
structure ScriptUnit where
  /-- The name that failures show. -/
  name : String
  engine : Engine

namespace ScriptUnit

/-- Evaluates sources one after the other; tells whether all went well. -/
def evalAll : List Source → Engine → Routine (Bool × Engine)
  | [], e => return (true, e)
  | s :: rest, e => do
    match ← e.evalFile s.displayName s.text with
    | (.ok _, e) => evalAll rest e
    | (.error _, e) => return (false, e)

/-- The unit of some sources, which is none if one cannot be evaluated. -/
def compile? (natives : Natives) (token : TokenId) (sources : List Source) :
    Routine (Option ScriptUnit) := do
  match ← evalAll sources ((Engine.create natives).setToken token) with
  | (true, e) =>
    return some { name := (sources.head?.map (·.id)).getD "", engine := e.setToken none }
  | (false, _) =>
    if ← Routine.demand (.isStopped token) then return none
    else do
      Routine.demand (.log (Log.error "Failed to compile script" []))
      return none

/-- Why a call that failed gives no value. -/
def scriptError (u : ScriptUnit) (stopped : Bool) : EngineError → ScriptError
  | e =>
    if stopped then .stopped
    else match e with
      | .functionNotFound name => .unknownFunction name
      | e => .failed s!"{u.name}: {e.message}"

/-- Calls a function of the unit for an execution, which may be stopped meanwhile. -/
def execute (u : ScriptUnit) (c : Context) (functionName : String) (args : List Value) :
    Routine (Except ScriptError Value × ScriptUnit) := do
  match ← c.checkpoint with
  | .error e => return (.error e, u)
  | .ok () =>
    let (r, engine) ← (u.engine.setToken c.token).call functionName args
    let u := { u with engine := engine.setToken none }
    match r with
    | .ok v => return (.ok v, u)
    | .error e => return (.error (u.scriptError (← c.isStopped) e), u)

/-- The body of an execution of the unit. -/
def toExecutable (u : ScriptUnit) : ExecutableUnit := fun c functionName args => do
  match ← u.execute c functionName args with
  | (.ok v, _) => return .value v
  | (.error e, _) => return .error e

/-- The compiler of scripts that find these native functions. -/
def compiler (natives : Natives) : Compiler := fun token sources => do
  return (← compile? natives token sources).map toExecutable

end ScriptUnit

end Scripting
