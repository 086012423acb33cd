/-
What crosses from the host into a script engine. Values become trees of scalars, arrays, objects and
records that keep their methods; a host object stays behind, and a result that holds one anywhere is
refused whole.
-/
import Scripting.Shape.Basic
import Scripting.Value.Aggregate
import Scripting.Value.Order

namespace Scripting

/-- A tree that a script engine can hold. -/
inductive Exported where
  /-- Void, a boolean, an integer, a double or a string. -/
  | scalar (v : Value)
  | array (items : List Exported)
  | object (members : List (String × Exported))
  /-- A record that offers the methods of its shape. -/
  | wrapped (record : Record)
  /-- A host object of a type, which no engine can hold. -/
  | sealed (typeName : String)
  deriving Inhabited

/-- Why a call or a value does not cross. -/
inductive BridgeError where
  | notWrapped (method : String)
  | unknownMethod (typeName method : String)
  | handler (method text : String)
  | leak (method typeName : String)
  deriving DecidableEq

namespace BridgeError

def message : BridgeError → String
  | .notWrapped method => s!"{method} called on a value that is not a wrapped record"
  | .unknownMethod typeName method => s!"Record type {typeName} has no method {method}"
  | .handler method text => s!"{method} failed: {text}"
  | .leak method typeName => s!"{method} returned an unconvertible {typeName}"

/-- Whether a script sees null in place of an exception. -/
def yieldsNull : BridgeError → Bool
  | .notWrapped _ => true
  | .leak .. => true
  | _ => false

end BridgeError

namespace Exported

def null : Exported := .scalar .void

/-! ## Host objects inside -/

mutual

/-- The type of the first host object in a tree. -/
def firstSealed? : Exported → Option String
  | .sealed typeName => some typeName
  | .array items => firstSealedItem? items
  | .object members => firstSealedMember? members
  | _ => none

def firstSealedItem? : List Exported → Option String
  | [] => none
  | e :: rest => e.firstSealed?.or (firstSealedItem? rest)

def firstSealedMember? : List (String × Exported) → Option String
  | [] => none
  | (_, e) :: rest => e.firstSealed?.or (firstSealedMember? rest)

end

/-! ## Trees of values -/

/-- The member that names the type of a record without a shape. -/
def typeMember : String := "__type__"

/-- Members in ascending order of their names; of two with one name the first stays in front. -/
def sortMembers (members : List (String × Exported)) : List (String × Exported) :=
  members.mergeSort fun a b => !(b.1 < a.1)

mutual

/-- The tree of a value. A record without a shape is an object whose last member names its type. -/
def ofValue (shapes : Shapes) : Value → Exported
  | .record typeName fields =>
    if Assoc.contains typeName shapes then .wrapped ⟨typeName, fields⟩
    else .object (ofFields shapes fields ++ [(typeMember, .scalar (.string typeName))])
  | .ordered _ items => .array (ofItems shapes items)
  | .keyed _ entries => .object (sortMembers (ofEntries shapes entries))
  | .plural _ items => .array (ofItems shapes items)
  | .handle h => .sealed h.typeName
  | v => .scalar v

def ofItems (shapes : Shapes) : List Value → List Exported
  | [] => []
  | v :: rest => ofValue shapes v :: ofItems shapes rest

def ofFields (shapes : Shapes) : List (String × Value) → List (String × Exported)
  | [] => []
  | (n, v) :: rest => (n, ofValue shapes v) :: ofFields shapes rest

def ofEntries (shapes : Shapes) : List (Key × Value) → List (String × Exported)
  | [] => []
  | (k, v) :: rest => (k.text, ofValue shapes v) :: ofEntries shapes rest

end

mutual

/-- Equality of trees; scalars and records compare by their contents. -/
def same : Exported → Exported → Bool
  | .scalar a, .scalar b => a.same b
  | .array items, .array items' => sameItems items items'
  | .object members, .object members' => sameMembers members members'
  | .wrapped r, .wrapped r' => r.toValue.same r'.toValue
  | .sealed t, .sealed t' => t == t'
  | _, _ => false

def sameItems : List Exported → List Exported → Bool
  | [], [] => true
  | a :: rest, b :: rest' => same a b && sameItems rest rest'
  | _, _ => false

def sameMembers : List (String × Exported) → List (String × Exported) → Bool
  | [], [] => true
  | (n, a) :: rest, (n', b) :: rest' => n == n' && same a b && sameMembers rest rest'
  | _, _ => false

end

end Exported

namespace Shapes

/-- Hands out the result of a method, unless it holds a host object. -/
def exported (shapes : Shapes) (method : String) (v : Value) : Except BridgeError Exported :=
  let tree := Exported.ofValue shapes v
  match tree.firstSealed? with
  | some typeName => .error (.leak method typeName)
  | none => .ok tree

/-- Calls a method on the record that a tree wraps. -/
def call (shapes : Shapes) (method : String) (this : Exported) (args : List Value) :
    Except BridgeError Exported :=
  match this with
  | .wrapped record =>
    match shapes.shapeOf? record with
    | none => .error (.notWrapped method)
    | some shape =>
      match shape.invoke method record args with
      | .ok v => shapes.exported method v
      | .error (.handler _ text) => .error (.handler method text)
      | .error _ => .error (.unknownMethod record.typeName method)
  | _ => .error (.notWrapped method)

end Shapes

end Scripting
