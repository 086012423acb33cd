/-
Running scripts: steps that read and change a machine, ask the host for things, and end with a value
or by an exception. Evaluation is left open here: what works on values is told how to evaluate.
-/
import Scripting.Js.Heap
import Scripting.Native.Basic

namespace Scripting.Js

/-- Why a script does not go on. -/
inductive Abrupt where
  | thrown (v : Value)
  /-- Its host has stopped it; no handler of the script sees this. -/
  | interrupted
  /-- A value of it has no form outside, and not by an exception; the text says why. -/
  | unreadable (text : String)
  /-- The fuel of the evaluation is used up. -/
  | exhausted
  deriving DecidableEq

/-- What a script runs on. -/
structure Machine where
  heap : Heap
  /-- The native functions that scripts find. -/
  natives : Natives := []
  /-- Tells whether the script shall stop. -/
  token : Option TokenId := none
  /-- How often the script has passed a place where it can be stopped. -/
  polls : Nat := 0
  /-- The number of calls that are going on. -/
  depth : Nat := 0
  /-- The value of the last statement of the script that has one. -/
  last : Value := .undefined

abbrev Run := ExceptT Abrupt (StateT Machine Routine)

/-- Where code stands: its scope, what `this` is, and whether it is code of no function. -/
structure Frame where
  scope : ScopeId
  this : Value := .undefined
  isScript : Bool := false

/-- How a statement ends. -/
inductive Completion where
  | normal
  | returned (v : Value)
  | left
  | next

/-- How to go on evaluating. -/
structure Evaluator where
  expr : Frame → Expr → Run Value
  statement : Frame → Statement → Run Completion
  /-- Goes on with a loop: its test, its update, its body, and the names that each turn has anew. -/
  loop : Frame → Option Expr → Option Expr → Statement → List String → Run Completion
  /-- Calls a value on `this` and arguments. -/
  call : Value → Value → List Value → Run Value

namespace Run

/-! ## The machine -/

def heap : Run Heap := return (← get).heap

def changeHeap (f : Heap → Heap) : Run Unit :=
  modify fun m => { m with heap := f m.heap }

/-- Allocates in the heap. -/
def allocate {α : Type} (f : Heap → α × Heap) : Run α :=
  modifyGet fun m =>
    let (a, heap) := f m.heap
    (a, { m with heap })

def newPlain : Run ObjectId := allocate Heap.allocatePlain

def newArray (items : Array (Option Value)) : Run Value :=
  return .object (← allocate fun h => h.allocateArray items)

def newFunction (f : Callable) : Run Value :=
  return .object (← allocate fun h => h.allocateFunction f)

/-- The object that a value is. -/
def object? (v : Value) : Run (Option (ObjectId × Object)) := do
  match v with
  | .object id => return some (id, (← heap).object id)
  | _ => return none

/-! ## Exceptions -/

def throwValue {α : Type} (v : Value) : Run α := throw (.thrown v)

/-- Throws a new error. -/
def fail {α : Type} (sort : ErrorSort) (message : String) : Run α := do
  throwValue (.object (← allocate fun h => h.allocateError sort message))

/-! ## The host -/

/-- Asks the host for something. -/
def ask (d : Demand) : Run d.Answer := ExceptT.lift (StateT.lift (Routine.demand d))

/-- Runs what a native function does. -/
def native {α : Type} (p : Routine α) : Run α := ExceptT.lift (StateT.lift p)

def log (e : Log.Event) : Run Unit := ask (.log e)

/-! ## Stops -/

/-- The number of places that a script passes before it looks whether it shall stop. -/
def stopInterval : Nat := 10000

/-- The number of places that a script passes before it lets others go on. -/
def yieldInterval : Nat := 64

/-- A place where a script can be stopped. The first one of a machine looks at the flag, and so does the
first one of every interval behind it. -/
def poll : Run Unit := do
  let polls := (← get).polls
  modify fun m => { m with polls := polls + 1 }
  if polls % stopInterval = 0 then
    match (← get).token with
    | some t => if ← ask (.isStopped t) then throw .interrupted
    | none => pure ()
  if (polls + 1) % yieldInterval = 0 then ask .yield

/-- The number of calls that may go on at a time. -/
def depthLimit : Nat := 400

/-- Runs a call, if there is room for it. -/
def called {α : Type} (body : Run α) : Run α := do
  let depth := (← get).depth
  if depthLimit ≤ depth then fail .internalError "stack overflow"
  else do
    modify fun m => { m with depth := depth + 1 }
    let r ← ExceptT.lift body.run
    modify fun m => { m with depth }
    match r with
    | .ok a => return a
    | .error e => throw e

end Run

end Scripting.Js
