/-
What crosses between the host and a script. A value that the host hands out becomes values of the
script, and a record keeps its contents where the script cannot reach them; a value that the script
hands out becomes a value of the host, unless it is nested too deep.
-/
import Scripting.Js.Property
import Scripting.Bridge.Basic

namespace Scripting.Js.Run

/-! ## Into a script -/

/-- The value of a scalar. -/
def writeScalar : Scripting.Value → Run Value
  | .void => return .null
  | .bool b => return .bool b
  | .int i => return .number (.ofInt i.toInt)
  | .float x => return .number (.ofBinary64 x)
  | .string s => return .string s
  | v => fail .typeError s!"cannot pass {v.type.text} as a primitive"

/-- A new object for a record: it shows the type and has a function for every method of the shape. -/
def wrap (r : Record) : Run Value := do
  let shapes ← ask .shapes
  let methods := ((shapes.shapeOf? r).map Shape.methodNames).getD []
  let id ← allocate fun h => h.allocate { sort := .record r, parent := some h.realm.object }
  storeNamed id Exported.typeMember (.string r.typeName)
  methods.forM fun method => do storeNamed id method (← newFunction (.method method))
  return .object id

mutual

/-- The value of a tree that the bridge has let through. -/
def write : Exported → Run Value
  | .scalar v => writeScalar v
  | .array items => do newArray (← writeItems items).toArray
  | .object members => do
    let id ← newPlain
    writeMembers id members
    return .object id
  | .wrapped r => wrap r
  | .sealed typeName => fail .typeError s!"{typeName} cannot be passed to JavaScript"

def writeItems : List Exported → Run (List (Option Value))
  | [] => return []
  | e :: rest => do
    let v ← write e
    return some v :: (← writeItems rest)

def writeMembers (id : ObjectId) : List (String × Exported) → Run Unit
  | [] => return ()
  | (name, e) :: rest => do
    storeNamed id name (← write e)
    writeMembers id rest

end

/-! ## Out of a script -/

/-- The number of steps that may lead into a value. -/
def nestingLimit : Nat := 64

/-- The text under the name that tells the type of an object; none if there is anything else, or reading
it throws or is interrupted. -/
def typeMember? (ev : Evaluator) (v : Value) : Run (Option String) := do
  tryCatch (do
    match ← getNamed ev v Exported.typeMember with
    | .string s => return some s
    | _ => return none) fun e =>
      match e with
      | .exhausted => throw .exhausted
      | _ => return none

/-- The value of an object with its members: a record if its type is told, else a map. -/
def ofMembers (typeName : Option String) (members : List (String × Scripting.Value)) :
    Scripting.Value :=
  match typeName with
  | some typeName => (Record.ofFields typeName members).toValue
  | none => (Aggregate.map .string .any (members.map fun (n, v) => (Key.string n, v))).toValue

/-- Reads a value into which fewer steps lead than a number. -/
def readWithin (ev : Evaluator) : Nat → Value → Run Scripting.Value
  | 0, _ => fail .typeError s!"value nested deeper than {nestingLimit} levels (cyclic?)"
  | n + 1, v => do
    match v with
    | .bool b => return .bool b
    | .number (.int i) => return .int i.toInt64
    | .number (.float x) => return .float x
    | .string s => return .string s
    | .broken t => throw (.unreadable t.message)
    | .object id =>
      let h ← heap
      match (h.object id).sort with
      | .record r => return r.toValue
      | .array items =>
        return .list (← items.toList.mapM fun item => readWithin ev n (item.getD .undefined))
      | .plain =>
        let typeName ← typeMember? ev v
        let names := ((← heap).ownNames id).filter (· != Exported.typeMember)
        let members ← names.mapM fun name => do
          return (name, ← readWithin ev n (← getNamed ev v name))
        return ofMembers typeName members
      | _ => return .void
    | _ => return .void

/-- Reads a value. -/
def read (ev : Evaluator) (v : Value) : Run Scripting.Value := readWithin ev (nestingLimit + 1) v

/-! ## Calls -/

/-- Reads an argument of a call. A text without a form outside is an error of the script here. -/
def readArgument (ev : Evaluator) (v : Value) : Run Scripting.Value :=
  tryCatch (read ev v) fun e =>
    match e with
    | .unreadable text => fail .typeError text
    | e => throw e

/-- Hands the result of a method or a native function to the script. A result that cannot cross is
null, and is logged. -/
def receive (r : Except BridgeError Exported) (complaint : Log.Event) : Run Value := do
  match r with
  | .ok e => write e
  | .error e =>
    if e.yieldsNull then do
      log complaint
      return .null
    else fail .error e.message

/-- What a method sees of the value that it is called on: the record of the host, or nothing. -/
def receiver (h : Heap) (this : Value) : Exported :=
  match this with
  | .object id =>
    match (h.object id).sort with
    | .record r => .wrapped r
    | _ => Exported.null
  | _ => Exported.null

/-- Calls a method of the host's records. -/
def callMethod (ev : Evaluator) (method : String) (this : Value) (args : List Value) : Run Value := do
  let target := receiver (← heap) this
  let args ← args.mapM (readArgument ev)
  let shapes ← ask .shapes
  receive (shapes.call method target args) (Log.error "Bridge call failed" [("method", method)])

/-- Calls a native function. -/
def callNative (ev : Evaluator) (name : String) (args : List Value) : Run Value := do
  let args ← args.mapM (readArgument ev)
  match ← native ((← get).natives.call name args) with
  | .ok v =>
    let shapes ← ask .shapes
    receive (shapes.exported name v) (Log.error "Refusing to export value" [("name", name)])
  | .error text => fail .error s!"{name}: {text}"

end Scripting.Js.Run
