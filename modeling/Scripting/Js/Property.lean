/-
Properties: reading, storing and deleting what an object has under a name.
-/
import Scripting.Js.Run
import Scripting.Text.Units

namespace Scripting.Js

namespace Value

/-- The word for a value that has no properties. -/
def emptyName : Value → String
  | .null => "null"
  | _ => "undefined"

/-- What a text of code units has of its own under a name. -/
def textProperty? (units : List Nat) (name : String) : Option Value :=
  if name == "length" then some (.number (.ofInt units.length))
  else do
    let i ← index? name
    let n ← units[i]?
    return .ofUnits [n]

end Value

namespace Run

/-! ## Reading -/

/-- The value of a property, for which `this` is the value that it was looked up on. -/
def contentValue (ev : Evaluator) (this : Value) : Option Content → Run Value
  | some (.data v) => return v
  | some (.getter f) => ev.call (.object f) this []
  | none => return .undefined

/-- Where the properties of a value are looked up, after its own. -/
def holder (h : Heap) : Value → Option ObjectId
  | .object id => some id
  | .string _ => some h.realm.string
  | .broken _ => some h.realm.string
  | .undefined => none
  | .null => none
  | _ => some h.realm.object

/-- What a value has under a name. -/
def getNamed (ev : Evaluator) (v : Value) (name : String) : Run Value := do
  let h ← heap
  match holder h v with
  | none => fail .typeError s!"cannot read property '{name}' of {v.emptyName}"
  | some id =>
    match v.units?.bind fun units => Value.textProperty? units name with
    | some x => return x
    | none => contentValue ev v (h.find? id name)

/-! ## Storing -/

/-- The greatest gap that a new item may leave in an array. -/
def gapLimit : Nat := 1000000

/-- Items with one of them stored; a later place leaves a gap before it. -/
def storeItem (items : Array (Option Value)) (i : Nat) (v : Value) : Array (Option Value) :=
  if i < items.size then items.setIfInBounds i (some v)
  else (items ++ Array.replicate (i - items.size) none).push (some v)

/-- Stores a property that an object has or gets. -/
def storeProperty (id : ObjectId) (name : String) (v : Value) : Run Unit :=
  changeHeap fun h => h.update id fun o =>
    match o.property? name with
    | some p => o.put { p with content := .data v }
    | none => o.put { name, content := .data v }

/-- Whether an assignment finds a property that cannot be stored. -/
def hasGetter (h : Heap) (id : ObjectId) (name : String) : Bool :=
  match h.find? id name with
  | some (.getter _) => true
  | _ => false

/-- The items of an array, before its new length is stored. -/
def resized (items : Array (Option Value)) (n : Nat) : Array (Option Value) :=
  if n ≤ items.size then items.extract 0 n else items ++ Array.replicate (n - items.size) none

/-- The number of items of an array. -/
def itemCount? (o : Object) : Option Nat :=
  match o.sort with
  | .array items => some items.size
  | _ => none

/-- Changes the items of an array. -/
def changeItems (id : ObjectId) (f : Array (Option Value) → Array (Option Value)) : Run Unit :=
  changeHeap fun h => h.update id fun o =>
    match o.sort with
    | .array items => { o with sort := .array (f items) }
    | _ => o

/-- Stores the length of an array, which has so many items. -/
def storeLength (id : ObjectId) (size : Nat) (v : Value) : Run Unit := do
  match v with
  | .number (.int n) =>
    if 0 ≤ n.toInt && n.toInt.toNat ≤ size + gapLimit then
      changeItems id fun items => resized items n.toInt.toNat
    else fail .rangeError "invalid array length"
  | _ => fail .rangeError "invalid array length"

/-- Stores a value under a name of an object. -/
def storeNamed (id : ObjectId) (name : String) (v : Value) : Run Unit := do
  match itemCount? ((← heap).object id) with
  | some size =>
    match index? name with
    | some i =>
      if i ≤ size + gapLimit then changeItems id fun items => storeItem items i v
      else fail .internalError "out of memory"
    | none => if name == "length" then storeLength id size v else storeProperty id name v
  | none =>
    if hasGetter (← heap) id name then fail .typeError "no setter for property"
    else storeProperty id name v

def setNamed (v : Value) (name : String) (x : Value) : Run Unit := do
  match v with
  | .object id => storeNamed id name x
  | .undefined => fail .typeError s!"cannot set property '{name}' of {v.emptyName}"
  | .null => fail .typeError s!"cannot set property '{name}' of {v.emptyName}"
  | _ => fail .typeError "not an object"

/-! ## Deleting -/

/-- Takes a name out of an object. -/
def removeNamed (id : ObjectId) (name : String) : Run Unit := do
  changeItems id fun items =>
    match index? name with
    | some i => items.setIfInBounds i none
    | none => items
  changeHeap fun h => h.update id fun o => o.remove name

def deleteNamed (v : Value) (name : String) : Run Value := do
  match v with
  | .object id =>
    let o := (← heap).object id
    if (o.property? name).any (·.isFixed) || ((itemCount? o).isSome && name == "length") then
      fail .typeError "could not delete property"
    else do
      removeNamed id name
      return .bool true
  | .undefined => fail .typeError "cannot convert to object"
  | .null => fail .typeError "cannot convert to object"
  | _ => return .bool true

/-! ## Plain contents -/

/-- The names and values of the visible properties of an object. -/
def ownEntries (ev : Evaluator) (id : ObjectId) : Run (List (String × Value)) := do
  (← heap).ownNames id |>.mapM fun name => return (name, ← getNamed ev (.object id) name)

/-- A new plain object with properties. -/
def newObject (properties : List (String × Value)) : Run Value := do
  let id ← newPlain
  properties.forM fun (name, v) => storeNamed id name v
  return .object id

end Run

end Scripting.Js
