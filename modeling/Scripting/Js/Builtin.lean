/-
The functions that every script finds: those of the language and those that log.
-/
import Scripting.Js.JsonText

namespace Scripting.Js

/-! ## Logging -/

namespace LogCall

def all : List LogCall := [.log, .info, .warn, .error, .debug]

/-- The name of the function. -/
def name : LogCall → String
  | .log => "log"
  | .info => "info"
  | .warn => "warn"
  | .error => "error"
  | .debug => "debug"

def event (call : LogCall) (text : String) : Log.Event :=
  match call with
  | .log => Log.info text
  | .info => Log.info text
  | .warn => Log.warn text []
  | .error => Log.error text []
  | .debug => ⟨.debug, text, []⟩

end LogCall

namespace Run

/-- The word for the sort of a value where it is no text. -/
def sortName (h : Heap) : Value → String
  | .undefined => "undefined"
  | .null => "null"
  | .bool _ => "bool"
  | .number (.int _) => "int"
  | .number (.float _) => "float"
  | .string _ => "string"
  | .broken _ => "string"
  | .object id =>
    match (h.object id).sort with
    | .array _ => "array"
    | .function (.closure code _ _) => if code.isArrow then "function" else "constructor"
    | .function (.builtin (.makeError _)) => "constructor"
    | .function (.builtin .makeString) => "constructor"
    | .function (.builtin .makeObject) => "constructor"
    | .function _ => "function"
    | .error => "exception"
    | _ => "object"

/-- The text that an argument must be. -/
def needText (v : Value) : Run String := do
  match v with
  | .string s => return s
  | .broken t => fail .typeError t.message
  | v => fail .typeError s!"Error converting from js '{sortName (← heap) v}' into type 'string'"

def hostLog (call : LogCall) (args : List Value) : Run Value := do
  match args with
  | v :: _ => do
    log (call.event (← needText v))
    return .undefined
  | [] => fail .typeError "Error calling function with 0 argument(s) while 1 where expected"

def consoleLog (call : LogCall) (args : List Value) : Run Value := do
  log (call.event (String.intercalate " " (← args.mapM needText)))
  return .undefined

/-! ## Errors and objects -/

/-- A new error, with a message if one is given. -/
def makeError (ev : Evaluator) (sort : ErrorSort) (message : Value) : Run Value := do
  match message with
  | .undefined =>
    return .object (← allocate fun h =>
      h.allocate { sort := .error, parent := some (h.realm.errorParent sort) })
  | v =>
    let text ← asText ev v
    return .object (← allocate fun h => h.allocateErrorWith sort text)

/-- The text of a value, unless it is undefined. -/
def textOr (ev : Evaluator) (default : String) (v : Value) : Run Value := do
  match v with
  | .undefined => return .string default
  | v => asText ev v

def errorText (ev : Evaluator) (this : Value) : Run Value := do
  let name ← textOr ev "Error" (← getNamed ev this "name")
  let message ← textOr ev "" (← getNamed ev this "message")
  return if !name.isTrue then message else if !message.isTrue then name
    else (name.append (.string ": ")).append message

def objectText (h : Heap) (this : Value) : String :=
  let word := match this with
    | .undefined => "Undefined"
    | .null => "Null"
    | .bool _ => "Boolean"
    | .number _ => "Number"
    | .string _ => "String"
    | .broken _ => "String"
    | .object id =>
      match (h.object id).sort with
      | .array _ => "Array"
      | .function _ => "Function"
      | .error => "Error"
      | _ => "Object"
  "[object " ++ word ++ "]"

/-- The text of a function shows its name, but no code. -/
def functionText (h : Heap) (this : Value) : String :=
  let name := match this with
    | .object id =>
      match h.ownContent? id "name" with
      | some (.data (.string s)) => s
      | _ => ""
    | _ => ""
  "function " ++ name ++ "() \x7b\n    [native code]\n\x7d"

def objectKeys (v : Value) : Run Value := do
  let names ← match v with
    | .undefined => fail .typeError "cannot convert to object"
    | .null => fail .typeError "cannot convert to object"
    | .object id => pure ((← heap).ownNames id)
    | v => pure ((List.range ((v.units?.map List.length).getD 0)).map toString)
  newArray (names.map fun n => some (.string n)).toArray

/-! ## Arrays -/

/-- The items of an array, or what is found at the indices of another object. -/
def itemsOf (ev : Evaluator) (v : Value) : Run (List Value) := do
  let items := match ← object? v with
    | some (_, { sort := .array items, .. }) => some items
    | _ => none
  match items with
  | some items => return items.toList.map (·.getD .undefined)
  | none =>
    match ← getNamed ev v "length" with
    | .number (.int n) =>
      (List.range (min n.toInt.toNat gapLimit)).mapM fun i => getNamed ev v (toString i)
    | _ => return []

/-- Puts values behind the items of an array, and gives the new length. -/
def push (ev : Evaluator) (this : Value) (args : List Value) : Run Value := do
  match this with
  | .object id =>
    match itemCount? ((← heap).object id) with
    | some size => do
      changeItems id fun items => args.foldl (fun items v => items.push (some v)) items
      return .number (.ofInt (size + args.length))
    | none => do
      let start := (← numberOf ev (← getNamed ev this "length")).toBinary64.truncate.toNat
      args.zipIdx.forM fun (v, i) => storeNamed id (toString (start + i)) v
      let size := Value.number (.ofInt (start + args.length))
      storeNamed id "length" size
      return size
  | _ => fail .typeError "cannot convert to object"

/-- The texts of the items, with one between; undefined and null have none. -/
def join (ev : Evaluator) (this separator : Value) : Run Value := do
  let separator ← textOr ev "," separator
  let texts ← (← itemsOf ev this).mapM fun v => do
    match v with
    | .null => return .string ""
    | v => textOr ev "" v
  return .ofUnits (List.intercalate separator.plainUnits (texts.map Value.plainUnits))

def mapItems (ev : Evaluator) (this f receiver : Value) : Run Value := do
  if !f.isCallable (← heap) then fail .typeError "not a function"
  else
    let results ← (← itemsOf ev this).zipIdx.mapM fun (v, i) =>
      ev.call f receiver [v, .number (.ofInt i), this]
    newArray (results.map some).toArray

/-- The items of an array, or the value itself. -/
def spread (h : Heap) (v : Value) : List (Option Value) :=
  match v with
  | .object id =>
    match (h.object id).sort with
    | .array items => items.toList
    | _ => [some v]
  | v => [some v]

def concat (this : Value) (args : List Value) : Run Value := do
  let h ← heap
  newArray ((this :: args).flatMap (spread h)).toArray

/-! ## Texts -/

/-- The parts of a text between the places where another stands. What comes first is the part so far, last
unit first, and the number of units to pass over. -/
def partsOf (separator : List Nat) : List Nat → Nat → List Nat → List (List Nat)
  | part, _, [] => [part.reverse]
  | part, passed + 1, _ :: rest => partsOf separator part passed rest
  | part, 0, n :: rest =>
    if separator.isPrefixOf (n :: rest) then
      part.reverse :: partsOf separator [] (separator.length - 1) rest
    else partsOf separator (n :: part) 0 rest

def split (ev : Evaluator) (this separator limit : Value) : Run Value := do
  let units := (← asText ev this).plainUnits
  let parts ← match separator with
    | .undefined => pure [units]
    | v => do
      let separator := (← asText ev v).plainUnits
      pure (if separator.isEmpty then units.map fun n => [n] else partsOf separator [] 0 units)
  let parts ← match limit with
    | .undefined => pure parts
    | v => do pure (parts.take (← numberOf ev v).toBinary64.truncate.toNat)
  newArray (parts.map fun p => some (.ofUnits p)).toArray

/-- The base of a number in a text; it is open where it is no number. -/
def baseOf (ev : Evaluator) (v : Value) : Run Nat := do
  let x := (← numberOf ev v).toBinary64
  return if x.isFinite then (if x.truncate < 0 then 1 else x.truncate.toNat) else 0

/-! ## All functions -/

/-- Calls a function that every script finds. -/
def callBuiltin (ev : Evaluator) (b : Builtin) (this : Value) (args : List Value) : Run Value := do
  let arg (i : Nat) : Value := args.getD i .undefined
  match b with
  | .makeError sort => makeError ev sort (arg 0)
  | .makeString => if args.isEmpty then return .string "" else asText ev (arg 0)
  | .makeObject => if (arg 0).isObject then return arg 0 else return .object (← newPlain)
  | .objectKeys => objectKeys (arg 0)
  | .jsonText => jsonText ev (arg 0) (arg 2)
  | .parseInt => return .number (Number.parseInt (← textOf ev (arg 0)) (← baseOf ev (arg 1)))
  | .functionCall => ev.call this (arg 0) (args.drop 1)
  | .functionText => return .string (functionText (← heap) this)
  | .objectText => return .string (objectText (← heap) this)
  | .objectValue => return this
  | .errorText => errorText ev this
  | .arrayText => join ev this .undefined
  | .push => push ev this args
  | .join => join ev this (arg 0)
  | .map => mapItems ev this (arg 0) (arg 1)
  | .concat => concat this args
  | .split => split ev this (arg 0) (arg 1)
  | .hostLog call => hostLog call args
  | .consoleLog call => consoleLog call args

end Run

end Scripting.Js
