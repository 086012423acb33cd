/-
A script engine: it evaluates scripts one after the other, and calls the functions that they have
left behind. Values cross into it through the bridge and out of it by reading.
-/
import Scripting.Js.Evaluation
import Scripting.Js.Globals
import Scripting.Engine.Error

namespace Scripting

structure Engine where
  machine : Js.Machine

namespace Engine

/-- An engine whose scripts find these native functions. -/
def create (natives : Natives) : Engine :=
  { machine := { heap := Js.Heap.initial natives.names, natives } }

/-- The engine with the token that can stop its scripts; without one they are not stopped. -/
def setToken (e : Engine) (token : Option TokenId) : Engine :=
  { e with machine := { e.machine with token } }

/-! ## What scripts throw -/

/-- A double as reports on exceptions write it. -/
def doubleLayout : Decimal.Layout := ⟨some (-5), some 16, true, false, "NaN", "inf"⟩

/-- The text of an exception: the message of an error, a text itself, and the sort and the value of
anything else. -/
def thrownText (h : Js.Heap) (v : Js.Value) : String :=
  match v with
  | .string s => s
  | .broken _ => "String"
  | .number (.int i) => s!"Int({i.toInt})"
  | .number (.float x) => "Float(" ++ doubleLayout.write x ++ ")"
  | .bool b => if b then "Bool(true)" else "Bool(false)"
  | .undefined => "Undefined"
  | .null => "Null"
  | .object id =>
    match (h.object id).sort with
    | .error =>
      match h.find? id "message" with
      | some (.data (.string s)) => s
      | _ => "uncaught exception"
    | .array _ => "Array"
    | .function _ => "Function"
    | _ => "Object"

/-- Why a script did not go on. -/
def abruptText (h : Js.Heap) : Js.Abrupt → String
  | .thrown v => thrownText h v
  | .interrupted => "interrupted"
  | .unreadable text => text
  | .exhausted => "out of fuel"

/-- Why a value was not read: where that was by an exception, the exception is not shown. -/
def unreadText : Js.Abrupt → String
  | .unreadable text => text
  | _ => "Exception generated by QuickJS"

/-! ## Running -/

/-- Runs something on the engine; what it ends by without a value becomes an error. -/
def run {α : Type} (e : Engine) (asError : Js.Heap → Js.Abrupt → EngineError) (p : Js.Run α) :
    Routine (Except EngineError α × Engine) := do
  let (r, machine) ← (p.run).run e.machine
  return (r.mapError (asError machine.heap), { e with machine })

/-- Runs something on the engine and reads the value that it gives. -/
def runToValue (e : Engine) (asError : String → EngineError) (p : Js.Run Js.Value) :
    Routine (Except EngineError Value × Engine) := do
  match ← e.run (fun h a => asError (abruptText h a)) p with
  | (.error x, e) => return (.error x, e)
  | (.ok v, e) =>
    e.run (fun _ a => .conversion (unreadText a)) (Js.Run.read (Js.Run.evaluator Js.Run.fuel) v)

/-- Evaluates a script. -/
def eval (e : Engine) (script : String) : Routine (Except EngineError Value × Engine) :=
  e.runToValue .evaluation (Js.Run.runScript script)

/-- Evaluates a script that has a name, which errors show. -/
def evalFile (e : Engine) (name script : String) : Routine (Except EngineError Value × Engine) :=
  e.runToValue (fun text => .evaluation s!"{name}: {text}") (Js.Run.runScript script)

/-- The function that scripts have left behind under a name. -/
def function? (e : Engine) (name : String) : Option Js.Value :=
  let h := e.machine.heap
  match h.find? h.realm.globals name with
  | some (.data v) => if v.isCallable h then some v else none
  | _ => none

def hasFunction (e : Engine) (name : String) : Bool := (e.function? name).isSome

/-- Hands an argument of a call over to the engine, unless it cannot cross. -/
def passArgument (e : Engine) (name : String) (v : Value) :
    Routine (Except EngineError Js.Value × Engine) := do
  let shapes ← Routine.demand .shapes
  match shapes.exported name v with
  | .error x => return (.error (.bridge x), e)
  | .ok tree => e.run (fun h a => .conversion (abruptText h a)) (Js.Run.write tree)

/-- Hands the arguments of a call over, one after the other, behind those that have been handed over. -/
def passArguments (name : String) (passed : List Js.Value) : Engine → List Value →
    Routine (Except EngineError (List Js.Value) × Engine)
  | e, [] => return (.ok passed, e)
  | e, v :: rest => do
    match ← e.passArgument name v with
    | (.error x, e) => return (.error x, e)
    | (.ok w, e) => passArguments name (passed ++ [w]) e rest

/-- Calls a function that scripts have left behind. -/
def call (e : Engine) (name : String) (args : List Value) :
    Routine (Except EngineError Value × Engine) := do
  match e.function? name with
  | none => return (.error (.functionNotFound name), e)
  | some f =>
    match ← passArguments name [] e args with
    | (.error x, e) => return (.error x, e)
    | (.ok args, e) =>
      e.runToValue (fun text => .script s!"Error calling {name}: {text}")
        ((Js.Run.evaluator Js.Run.fuel).call f .undefined args)

/-- The number of the host's records that scripts can still come by. -/
def liveRecords (e : Engine) : Nat := e.machine.heap.liveRecords

end Engine

end Scripting
