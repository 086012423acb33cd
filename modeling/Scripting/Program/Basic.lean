/-
Programs: scripts that are lists of instructions. A program gathers values as it goes and gives the
list of them at its end, unless an instruction ends it before.
-/
import Scripting.Execution.Basic
import Scripting.Value.Aggregate

namespace Scripting

inductive Instruction where
  /-- Gathers a value. -/
  | log (v : Value)
  | param (index : Nat)
  | params
  | function
  | thread
  | systemThread
  /-- Gathers the name of the script thread that the instruction runs on. -/
  | current
  /-- Gathers whether the execution may still go on. -/
  | keep
  | checkpoint
  | stopSelf
  /-- Gathers the event of a message, void where none came. -/
  | poll (channel : String) (wait : Option Nat)
  /-- Waits for a message and gathers its event; a stop ends the program. -/
  | wait (channel : String)
  | post (channel event : String) (params : Option String)
  /-- Fails in every function but one. -/
  | only (function : String)
  | fail (text : String)
  | panic (text : Option String)
  | result (v : Value)
  /-- The compiler waits until it is told to stop, and then fails. -/
  | compileUntilStop
  deriving Inhabited

abbrev Program := List Instruction

namespace Program

/-- How often a program that waits looks again; more often than it is ever woken. -/
def patience : Nat := 1000000000000000000

/-- Waits until a token is raised. -/
def untilStopped (token : TokenId) : Nat → Routine Unit
  | 0 => return ()
  | n + 1 => do
    if ← Routine.demand (.isStopped token) then return ()
    else
      Routine.demand .yield
      untilStopped token n

/-- Waits for a message; a waiter that wakes without one comes to a safe point. -/
def untilMessage (c : Context) (channel : String) : Nat → Routine (Except ScriptError Message)
  | 0 => return .error .stopped
  | n + 1 => do
    match ← Routine.demand (.await channel none) with
    | some m => return .ok m
    | none =>
      match ← c.checkpoint with
      | .ok () => untilMessage c channel n
      | .error e => return .error e

def eventOf : Option Message → Value
  | some m => .string m.event
  | none => .void

/-- Runs a program from what it has gathered, newest first. -/
def run (c : Context) (functionName : String) (args : List Value) :
    Program → List Value → Routine Ending
  | [], gathered => return .value (Value.list gathered.reverse)
  | i :: rest, gathered =>
    let goOn (v : Value) : Routine Ending := run c functionName args rest (v :: gathered)
    let skip : Routine Ending := run c functionName args rest gathered
    match i with
    | .log v => goOn v
    | .param index => goOn (args.getD index .void)
    | .params => goOn (Value.list args)
    | .function => goOn (.string functionName)
    | .thread => goOn (.string c.threadName)
    | .systemThread => goOn (.string (Execution.systemThread c.threadName))
    | .current => do
      let name ← Routine.demand .currentThread
      goOn ((name.map .string).getD .void)
    | .keep => do
      let stopped ← c.isStopped
      goOn (.bool !stopped)
    | .checkpoint => do
      match ← c.checkpoint with
      | .ok () => skip
      | .error e => return .error e
    | .stopSelf => do
      Routine.demand (.stop c.token)
      skip
    | .poll channel none => do goOn (eventOf (← Routine.demand (.poll channel)))
    | .poll channel wait => do goOn (eventOf (← Routine.demand (.await channel wait)))
    | .wait channel => do
      match ← untilMessage c channel patience with
      | .ok m => goOn (.string m.event)
      | .error e => return .error e
    | .post channel event params => do
      Routine.demand (.post channel event params)
      skip
    | .only name => if functionName = name then skip else return .error (.unknownFunction functionName)
    | .fail text => return .error (.failed text)
    | .panic text => return .panic text
    | .result v => return .value v
    | .compileUntilStop => skip

/-- Whether the program never gets through its compiler. -/
def neverCompiles (p : Program) : Bool :=
  match p with
  | .compileUntilStop :: _ => true
  | _ => false

/-- The unit of a program. -/
def unit (p : Program) : ExecutableUnit := fun c functionName args => p.run c functionName args []

/-- The event that a compiler of programs logs when it begins. -/
def compiling : Log.Event := ⟨.debug, "Compiling program", []⟩

/-- The compiler of programs, which takes one source that can be read. -/
def compiler (read? : String → Option Program) : Compiler := fun token sources => do
  match sources with
  | [s] =>
    match read? s.text with
    | some p =>
      Routine.demand (.log compiling)
      if p.neverCompiles then
        untilStopped token patience
        return none
      else return some p.unit
    | none => return none
  | _ => return none

end Program

end Scripting
