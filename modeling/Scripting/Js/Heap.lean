/-
What a script works on: values, the objects that they refer to, and the scopes that hold its
bindings. Objects and scopes have numbers and are never taken away; one that can no longer be
reached is as good as gone.
-/
import Scripting.Js.Store
import Scripting.Js.Syntax
import Scripting.Value.Basic

namespace Scripting.Js

abbrev ObjectId := Nat

abbrev ScopeId := Nat

/-- A value of a script. -/
inductive Value where
  | undefined
  | null
  | bool (b : Bool)
  | number (n : Number)
  | string (s : String)
  /-- A text in which half of a character stands alone; it has no form outside of scripts. -/
  | broken (t : Text.Broken)
  | object (id : ObjectId)
  deriving DecidableEq, Inhabited

namespace Value

/-- The text of code units. -/
def ofUnits (units : List Nat) : Value :=
  match Text.ofUnits units with
  | .ok s => .string s
  | .error t => .broken t

/-- The code units of a text. -/
def units? : Value → Option (List Nat)
  | .string s => some (Text.units s)
  | .broken t => some t.units
  | _ => none

end Value

/-! ## Functions -/

/-- The sorts of errors. -/
inductive ErrorSort where
  | error | typeError | referenceError | syntaxError | rangeError | internalError
  deriving DecidableEq

namespace ErrorSort

def all : List ErrorSort :=
  [.error, .typeError, .referenceError, .syntaxError, .rangeError, .internalError]

def name : ErrorSort → String
  | .error => "Error"
  | .typeError => "TypeError"
  | .referenceError => "ReferenceError"
  | .syntaxError => "SyntaxError"
  | .rangeError => "RangeError"
  | .internalError => "InternalError"

end ErrorSort

/-- The levels at which a script can log. -/
inductive LogCall where
  | log | info | warn | error | debug
  deriving DecidableEq

/-- The functions that every script finds. -/
inductive Builtin where
  | makeError (sort : ErrorSort)
  | makeString
  | makeObject
  | objectKeys
  | jsonText
  | parseInt
  | functionCall
  | functionText
  | objectText
  | objectValue
  | errorText
  | arrayText
  | push
  | join
  | map
  | concat
  | split
  /-- Logs one text. -/
  | hostLog (call : LogCall)
  /-- Logs texts with blanks between. -/
  | consoleLog (call : LogCall)
  deriving DecidableEq

/-- What a function does. -/
inductive Callable where
  /-- Code of the script, with the scope that it stands in; an arrow keeps what `this` is there. -/
  | closure (code : FunctionCode) (scope : ScopeId) (this : Value)
  | builtin (b : Builtin)
  /-- A native function of the host. -/
  | native (name : String)
  /-- A method of the records of the host. -/
  | method (name : String)

/-! ## Objects -/

/-- What a property holds. -/
inductive Content where
  | data (v : Value)
  /-- A function that is called for the value. -/
  | getter (f : ObjectId)

structure Property where
  name : String
  content : Content
  isEnumerable : Bool := true
  /-- Whether it stays for ever. -/
  isFixed : Bool := false

/-- What an object is beyond its properties. -/
inductive ObjectSort where
  | plain
  /-- Items, some of them left out. -/
  | array (items : Array (Option Value))
  | function (f : Callable)
  | error
  /-- A record of the host. -/
  | record (r : Record)

structure Object where
  sort : ObjectSort := .plain
  parent : Option ObjectId := none
  /-- In the order in which they were added. -/
  properties : List Property := []

instance : Inhabited Object := ⟨{}⟩

namespace Object

def property? (o : Object) (name : String) : Option Property :=
  o.properties.find? fun p => p.name == name

/-- A list of properties with one of them put in: in place of the one of its name, else at the end. -/
def putIn (p : Property) : List Property → List Property
  | [] => [p]
  | q :: rest => if q.name == p.name then p :: rest else q :: putIn p rest

def put (o : Object) (p : Property) : Object := { o with properties := putIn p o.properties }

def remove (o : Object) (name : String) : Object :=
  { o with properties := o.properties.filter fun p => p.name != name }

def isCallable (o : Object) : Bool :=
  match o.sort with
  | .function _ => true
  | _ => false

def isRecord (o : Object) : Bool :=
  match o.sort with
  | .record _ => true
  | _ => false

end Object

/-! ## Indices -/

/-- The index that a name is: a number below 2^32 - 1 in its shortest decimal form. -/
def index? (name : String) : Option Nat :=
  let cs := name.toList
  if cs.isEmpty || !cs.all Char.isDigit || (cs.length ≠ 1 && cs.head? == some '0') then none
  else
    let n := Number.ofDigits 10 cs
    if n < 0xFFFFFFFF then some n else none

/-! ## Scopes -/

/-- A variable; one without a value is declared further down. -/
structure Variable where
  name : String
  value : Option Value
  isMutable : Bool := true

structure Scope where
  bindings : List Variable := []
  outer : Option ScopeId := none

instance : Inhabited Scope := ⟨{}⟩

namespace Scope

def find? (s : Scope) (name : String) : Option Variable :=
  s.bindings.find? fun v => v.name == name

/-- The scope with a variable, unless it has one of the name. -/
def declare (s : Scope) (v : Variable) : Scope :=
  if (s.find? v.name).isSome then s else { s with bindings := s.bindings ++ [v] }

/-- The scope with a new value for a variable that it has. -/
def assign (s : Scope) (name : String) (value : Value) : Scope :=
  { s with bindings := s.bindings.map fun v =>
      if v.name == name then { v with value := some value } else v }

end Scope

/-! ## The objects that every script finds -/

/-- Where the parents of new objects are. -/
structure Realm where
  globals : ObjectId := 0
  object : ObjectId := 0
  function : ObjectId := 0
  array : ObjectId := 0
  string : ObjectId := 0
  errors : List (ErrorSort × ObjectId) := []
  deriving Inhabited

/-- The parent of the errors of a sort. -/
def Realm.errorParent (r : Realm) (sort : ErrorSort) : ObjectId := (r.errors.lookup sort).getD r.object

/-- Objects, scopes and what every script finds. The first scope is that of all scripts. -/
structure Heap where
  objects : Store Object := {}
  scopes : Store Scope := (Store.add {} {}).2
  realm : Realm := {}
  deriving Inhabited

namespace Heap

def object (h : Heap) (id : ObjectId) : Object := h.objects.getD id {}

def scope (h : Heap) (id : ScopeId) : Scope := h.scopes.getD id {}

/-- The number of the scope of all scripts. -/
def topScope : ScopeId := 0

/-- The scope and the variable that a name stands for. The fuel is the number of scopes. -/
def resolve? (h : Heap) (name : String) : Nat → ScopeId → Option (ScopeId × Variable)
  | 0, _ => none
  | n + 1, id =>
    let s := h.scope id
    match s.find? name with
    | some v => some (id, v)
    | none =>
      match s.outer with
      | some outer => h.resolve? name n outer
      | none => none

def findVariable? (h : Heap) (name : String) (id : ScopeId) : Option (ScopeId × Variable) :=
  h.resolve? name (h.scopes.size + 1) id

/-- The heap with one more object, and the number of the new one. -/
def allocate (h : Heap) (o : Object) : ObjectId × Heap :=
  let (id, objects) := h.objects.add o
  (id, { h with objects })

def update (h : Heap) (id : ObjectId) (f : Object → Object) : Heap :=
  { h with objects := h.objects.modify id f }

def openScope (h : Heap) (s : Scope) : ScopeId × Heap :=
  let (id, scopes) := h.scopes.add s
  (id, { h with scopes })

def updateScope (h : Heap) (id : ScopeId) (f : Scope → Scope) : Heap :=
  { h with scopes := h.scopes.modify id f }

/-- Whether an object is among another's parents. The fuel is the number of objects. -/
def isBelow (h : Heap) (ancestor : ObjectId) : Nat → ObjectId → Bool
  | 0, _ => false
  | n + 1, id =>
    match (h.object id).parent with
    | some p => p == ancestor || h.isBelow ancestor n p
    | none => false

/-- Stores a value under a name of an object's own, as a visible property. -/
def putData (h : Heap) (id : ObjectId) (name : String) (v : Value) : Heap :=
  h.update id fun o => o.put { name, content := .data v }

/-- Stores a value under a name of an object's own that listings leave out. -/
def putHidden (h : Heap) (id : ObjectId) (name : String) (v : Value) : Heap :=
  h.update id fun o => o.put { name, content := .data v, isEnumerable := false }

/-- A new plain object. -/
def allocatePlain (h : Heap) : ObjectId × Heap := h.allocate { parent := some h.realm.object }

def allocateArray (h : Heap) (items : Array (Option Value)) : ObjectId × Heap :=
  h.allocate { sort := .array items, parent := some h.realm.array }

def allocateFunction (h : Heap) (f : Callable) : ObjectId × Heap :=
  h.allocate { sort := .function f, parent := some h.realm.function }

/-- A new error with a text for its message. -/
def allocateErrorWith (h : Heap) (sort : ErrorSort) (message : Value) : ObjectId × Heap :=
  h.allocate {
    sort := .error, parent := some (h.realm.errorParent sort)
    properties := [{ name := "message", content := .data message, isEnumerable := false }] }

def allocateError (h : Heap) (sort : ErrorSort) (message : String) : ObjectId × Heap :=
  h.allocateErrorWith sort (.string message)

/-! ## Own properties -/

/-- The items of an array that are there, by their indices. -/
def itemNames (items : Array (Option Value)) : List String :=
  items.toList.zipIdx.filterMap fun (v, i) => v.map fun _ => toString i

/-- The names of the visible properties: indices in ascending order, then the others as they were
added. -/
def ownNames (h : Heap) (id : ObjectId) : List String :=
  let o := h.object id
  let names := (o.properties.filter (·.isEnumerable)).map (·.name)
  let (indices, others) := names.partition fun n => (index? n).isSome
  let items := match o.sort with
    | .array items => itemNames items
    | _ => []
  items ++ indices.mergeSort (fun a b => (index? a).getD 0 ≤ (index? b).getD 0) ++ others

/-- What an object of its own has under a name. -/
def ownContent? (h : Heap) (id : ObjectId) (name : String) : Option Content :=
  let o := h.object id
  let stored := (o.property? name).map (·.content)
  match o.sort with
  | .array items =>
    if name == "length" then some (.data (.number (.ofInt items.size)))
    else match index? name with
      | some i => (items.getD i none).map Content.data |>.or stored
      | none => stored
  | .function (.closure code _ _) =>
    if name == "name" then stored.or (some (.data (.string code.name)))
    else if name == "length" then stored.or (some (.data (.number (.ofInt code.params.length))))
    else stored
  | _ => stored

/-- What an object or one of its parents has under a name. The fuel is the number of objects. -/
def content? (h : Heap) (name : String) : Nat → ObjectId → Option Content
  | 0, _ => none
  | n + 1, id =>
    match h.ownContent? id name with
    | some c => some c
    | none =>
      match (h.object id).parent with
      | some p => h.content? name n p
      | none => none

/-- What a name of an object stands for. -/
def find? (h : Heap) (id : ObjectId) (name : String) : Option Content :=
  h.content? name (h.objects.size + 1) id

/-! ## What can be reached -/

/-- The objects and scopes that a value refers to. -/
def refersTo : Value → List (ObjectId ⊕ ScopeId)
  | .object id => [.inl id]
  | _ => []

/-- The objects and scopes next to an object or a scope. -/
def next (h : Heap) : ObjectId ⊕ ScopeId → List (ObjectId ⊕ ScopeId)
  | .inl id =>
    let o := h.object id
    let inside := match o.sort with
      | .array items => items.toList.flatMap fun v => (v.map refersTo).getD []
      | .function (.closure _ scope this) => .inr scope :: refersTo this
      | _ => []
    let held := o.properties.flatMap fun p =>
      match p.content with
      | .data v => refersTo v
      | .getter f => [.inl f]
    (o.parent.map Sum.inl).toList ++ inside ++ held
  | .inr id =>
    let s := h.scope id
    (s.outer.map Sum.inr).toList ++ s.bindings.flatMap fun v => (v.value.map refersTo).getD []

/-- Marks what can be reached from a list of places. The fuel is the number of references. -/
def mark (h : Heap) : Nat → List (ObjectId ⊕ ScopeId) → Array Bool × Array Bool → Array Bool × Array Bool
  | 0, _, seen => seen
  | _ + 1, [], seen => seen
  | n + 1, place :: rest, (objects, scopes) =>
    match place with
    | .inl id =>
      if objects.getD id true then h.mark n rest (objects, scopes)
      else h.mark n (h.next place ++ rest) (objects.setIfInBounds id true, scopes)
    | .inr id =>
      if scopes.getD id true then h.mark n rest (objects, scopes)
      else h.mark n (h.next place ++ rest) (objects, scopes.setIfInBounds id true)

/-- The number of references of all objects and scopes. -/
def references (h : Heap) : Nat :=
  (List.range h.objects.size).foldl (fun n i => n + (h.next (.inl i)).length) 0 +
    (List.range h.scopes.size).foldl (fun n i => n + (h.next (.inr i)).length) 0

/-- The number of the host's records that scripts can still come by. -/
def liveRecords (h : Heap) : Nat :=
  let unseen := (Array.replicate h.objects.size false, Array.replicate h.scopes.size false)
  let roots := [.inl h.realm.globals, .inr topScope]
  let (objects, _) := h.mark (h.references + roots.length + 1) roots unseen
  (List.range h.objects.size).foldl (fun n i =>
    if objects.getD i false && (h.object i).isRecord then n + 1 else n) 0

end Heap

end Scripting.Js
