/-
Executions: one run of a function of a unit under a thread name. An execution is created, runs at
most once and finishes with a value, a failure or, where it was stopped, neither.
-/
import Scripting.Routine.Basic
import Scripting.Source.Basic
import Scripting.Value.Basic
import Scripting.Text.Quoted

namespace Scripting

/-- Why the body of a script gives no value. -/
inductive ScriptError where
  /-- It saw that it was asked to stop. -/
  | stopped
  | unknownFunction (name : String)
  | failed (text : String)
  | panicked (text : String)
  deriving DecidableEq, Inhabited

def ScriptError.message : ScriptError → String
  | .stopped => "Script stopped"
  | .unknownFunction name => s!"Unknown function: {name}"
  | .failed text => text
  | .panicked text => s!"Script panicked: {text}"

/-- A thread for an execution could not be started. -/
structure SpawnError where
  threadName : String
  text : String
  deriving DecidableEq

def SpawnError.message (e : SpawnError) : String :=
  s!"Failed to spawn thread for {e.threadName}: {e.text}"

/-- What a body is told about its run. -/
structure Context where
  threadName : String
  token : TokenId
  deriving DecidableEq, Inhabited

namespace Context

def isStopped (c : Context) : Routine Bool := Routine.demand (.isStopped c.token)

/-- A safe point: where a stop was asked for, the rest of the body is left out. -/
def checkpoint (c : Context) : Routine (Except ScriptError Unit) := do
  return if ← c.isStopped then .error .stopped else .ok ()

end Context

/-- How a body ends; a panic may carry a text. -/
inductive Ending where
  | value (v : Value)
  | error (e : ScriptError)
  | panic (text : Option String)
  deriving Inhabited

/-- A script that is ready to run: the body of every function and list of parameters. -/
abbrev ExecutableUnit := Context → String → List Value → Routine Ending

/-- Makes a unit from sources; none where they are no script. The token tells that the host is being
stopped meanwhile. -/
abbrev Compiler := TokenId → List Source → Routine (Option ExecutableUnit)

/-- What a finished execution leaves. -/
structure Outcome where
  value : Option Value := none
  failure : Option String := none
  deriving Inhabited

/-- What the end of a body leaves: a stopped one leaves nothing. -/
def Ending.outcome : Ending → Outcome
  | .value v => { value := some v }
  | .error .stopped => {}
  | .error e => { failure := some e.message }
  | .panic text => { failure := some (ScriptError.panicked (text.getD "unknown panic")).message }

inductive ExecutionState where
  | created | running | finished
  deriving DecidableEq, Inhabited

namespace ExecutionState

/-- The state of a stored number. -/
def ofCode : Nat → ExecutionState
  | 0 => .created
  | 1 => .running
  | _ => .finished

def text : ExecutionState → String
  | .created => "created"
  | .running => "running"
  | .finished => "finished"

/-- The name of the state in summaries. -/
def name : ExecutionState → String
  | .created => "Created"
  | .running => "Running"
  | .finished => "Finished"

end ExecutionState

abbrev ExecutionId := Nat

/-- One run of a function. -/
structure Execution where
  threadName : String
  sourceId : String
  functionName : String
  params : List Value
  unit : ExecutableUnit
  token : TokenId
  state : ExecutionState := .created
  outcome : Outcome := {}

namespace Execution

instance : Inhabited Execution := ⟨{
  threadName := "", sourceId := "", functionName := "", params := []
  unit := fun _ _ _ => .done (.value .void), token := 0 }⟩

def isRunning (e : Execution) : Bool := e.state == .running

/-- Starts an execution that is only created; the answer is none for every other. -/
def start? (e : Execution) : Option Execution :=
  match e.state with
  | .created => some { e with state := .running }
  | _ => none

/-- Ends an execution. -/
def finish (e : Execution) (outcome : Outcome) : Execution :=
  { e with state := .finished, outcome }

def context (e : Execution) : Context := ⟨e.threadName, e.token⟩

/-- The body of the execution. -/
def body (e : Execution) : Routine Ending := e.unit e.context e.functionName e.params

/-- The name of the system thread that an execution runs on. -/
def systemThread (threadName : String) : String := "Script thread: " ++ threadName

def summary (e : Execution) : String :=
  Text.summary "ScriptExecution"
    [("thread_name", Text.quoted e.threadName), ("source_id", Text.quoted e.sourceId),
      ("function_name", Text.quoted e.functionName), ("state", e.state.name)]

end Execution

end Scripting
