/-
Conversions between the values of scripts, and the operators that rest on them.
-/
import Scripting.Js.Property

namespace Scripting.Js

namespace Value

/-- Whether a value counts as true. -/
def isTrue : Value → Bool
  | .undefined => false
  | .null => false
  | .bool b => b
  | .number n => !(n.isZero || n.isNaN)
  | .string s => s != ""
  | .broken _ => true
  | .object _ => true

def isCallable (h : Heap) : Value → Bool
  | .object id => (h.object id).isCallable
  | _ => false

def isObject : Value → Bool
  | .object _ => true
  | _ => false

def isText : Value → Bool
  | .string _ => true
  | .broken _ => true
  | _ => false

/-- The word that a script gets for the type of a value. -/
def typeName (h : Heap) : Value → String
  | .undefined => "undefined"
  | .null => "object"
  | .bool _ => "boolean"
  | .number _ => "number"
  | .string _ => "string"
  | .broken _ => "string"
  | .object id => if (h.object id).isCallable then "function" else "object"

/-- The text of a value that is no object; half of a character that stands alone in it is replaced. -/
def plainText : Value → String
  | .null => "null"
  | .bool b => if b then "true" else "false"
  | .number n => n.text
  | .string s => s
  | .broken t => t.replaced
  | _ => "undefined"

/-- The code units of the text of a value that is no object. -/
def plainUnits (v : Value) : List Nat := v.units?.getD (Text.units v.plainText)

/-- A value that is no object as a text. -/
def asText (v : Value) : Value :=
  match v with
  | .broken t => .broken t
  | v => .string v.plainText

/-- One text behind another. -/
def append (a b : Value) : Value :=
  match a, b with
  | .broken _, _ => .ofUnits (a.plainUnits ++ b.plainUnits)
  | _, .broken _ => .ofUnits (a.plainUnits ++ b.plainUnits)
  | _, _ => .string (a.plainText ++ b.plainText)

/-- The number of a value that is no object. -/
def plainNumber : Value → Number
  | .null => .zero
  | .bool b => if b then .int 1 else .zero
  | .number n => n
  | .string s => .ofText s
  | _ => .nan

/-! ## Comparison -/

def sameNumber (a b : Number) : Bool := a.toBinary64.same b.toBinary64

/-- Equality without conversions. -/
def strictlyEqual : Value → Value → Bool
  | .number a, .number b => sameNumber a b
  | a, b => a == b

/-- Equality of values of which none or both are objects. -/
def plainlyEqual (a b : Value) : Bool :=
  match a, b with
  | .undefined, .null => true
  | .null, .undefined => true
  | .undefined, _ => strictlyEqual a b
  | .null, _ => strictlyEqual a b
  | _, .undefined => false
  | _, .null => false
  | .string a, .string b => a == b
  | .broken a, .broken b => a == b
  | .object a, .object b => a == b
  | a, b => sameNumber a.plainNumber b.plainNumber

/-- The order of values that are no objects: texts by their code units, all else as numbers. -/
def plainOrder? (a b : Value) : Option Ordering :=
  match a.units?, b.units? with
  | some x, some y => some (compare x y)
  | _, _ => a.plainNumber.toBinary64.compare? b.plainNumber.toBinary64

end Value

namespace Run

/-! ## Objects as other values -/

/-- The first value that is no object and that a method of these names gives. -/
def primitiveBy (ev : Evaluator) (v : Value) : List String → Run Value
  | [] => fail .typeError "toPrimitive"
  | name :: rest => do
    let f ← getNamed ev v name
    if f.isCallable (← heap) then
      let r ← ev.call f v []
      if r.isObject then primitiveBy ev v rest else return r
    else primitiveBy ev v rest

/-- A value that is no object, for a text or for a number. -/
def primitive (ev : Evaluator) (forText : Bool) (v : Value) : Run Value := do
  if v.isObject then
    primitiveBy ev v (if forText then ["toString", "valueOf"] else ["valueOf", "toString"])
  else return v

/-- The text of a value, as a value. -/
def asText (ev : Evaluator) (v : Value) : Run Value := return (← primitive ev true v).asText

def textOf (ev : Evaluator) (v : Value) : Run String := return (← primitive ev true v).plainText

def numberOf (ev : Evaluator) (v : Value) : Run Number := return (← primitive ev false v).plainNumber

/-- The name of the property that a value stands for. Names are whole texts: half of a character that
stands alone is replaced. -/
def propertyName (ev : Evaluator) (v : Value) : Run String := textOf ev v

/-! ## Operators -/

def add (ev : Evaluator) (a b : Value) : Run Value := do
  let a ← primitive ev false a
  let b ← primitive ev false b
  if a.isText || b.isText then return a.append b
  else return .number (a.plainNumber.add b.plainNumber)

def arithmetic (ev : Evaluator) (f : Number → Number → Number) (a b : Value) : Run Value := do
  let a ← numberOf ev a
  let b ← numberOf ev b
  return .number (f a b)

/-- Whether the order of two values is one of some. -/
def ordered (ev : Evaluator) (orders : List Ordering) (a b : Value) : Run Value := do
  let a ← primitive ev false a
  let b ← primitive ev false b
  return .bool ((a.plainOrder? b).any orders.contains)

/-- Equality with conversions. -/
def looselyEqual (ev : Evaluator) (a b : Value) : Run Bool := do
  match a.isObject, b.isObject with
  | true, false =>
    if b == .null || b == .undefined then return false
    else return (← primitive ev false a).plainlyEqual b
  | false, true =>
    if a == .null || a == .undefined then return false
    else return a.plainlyEqual (← primitive ev false b)
  | _, _ => return a.plainlyEqual b

/-- Whether a value was made by a function. -/
def isInstance (ev : Evaluator) (v f : Value) : Run Bool := do
  if !f.isObject then fail .typeError "invalid 'instanceof' right operand"
  else if !f.isCallable (← heap) then fail .typeError "invalid 'instanceof' right operand"
  else match v, ← getNamed ev f "prototype" with
    | .object id, .object ancestor =>
      let h ← heap
      return h.isBelow ancestor (h.objects.size + 1) id
    | .object _, _ => fail .typeError "operand 'prototype' property is not an object"
    | _, _ => return false

def isInside (ev : Evaluator) (name v : Value) : Run Bool := do
  match v with
  | .object id => return ((← heap).find? id (← propertyName ev name)).isSome
  | _ => fail .typeError "invalid 'in' operand"

def binary (ev : Evaluator) (op : BinaryOp) (a b : Value) : Run Value := do
  match op with
  | .add => add ev a b
  | .sub => arithmetic ev .sub a b
  | .mul => arithmetic ev .mul a b
  | .div => arithmetic ev .div a b
  | .rem => arithmetic ev .rem a b
  | .less => ordered ev [.lt] a b
  | .lessEqual => ordered ev [.lt, .eq] a b
  | .greater => ordered ev [.gt] a b
  | .greaterEqual => ordered ev [.gt, .eq] a b
  | .equal => return .bool (← looselyEqual ev a b)
  | .unequal => return .bool !(← looselyEqual ev a b)
  | .strictEqual => return .bool (a.strictlyEqual b)
  | .strictUnequal => return .bool !(a.strictlyEqual b)
  | .instanceOf => return .bool (← isInstance ev a b)
  | .inside => return .bool (← isInside ev a b)

def unary (ev : Evaluator) (op : UnaryOp) (v : Value) : Run Value := do
  match op with
  | .minus => return .number (← numberOf ev v).neg
  | .plus => return .number (← numberOf ev v)
  | .not => return .bool !v.isTrue
  | .typeOf => return .string (v.typeName (← heap))
  | .void => return .undefined

/-! ## Members -/

/-- The item of an array at a number. -/
def itemAt? (h : Heap) (v i : Value) : Option Value :=
  match v, i with
  | .object id, .number (.int n) =>
    match (h.object id).sort with
    | .array items => if 0 ≤ n then items.getD n.toInt.toNat none else none
    | _ => none
  | _, _ => none

/-- What a value has under the name that another value stands for. -/
def getAt (ev : Evaluator) (v i : Value) : Run Value := do
  match itemAt? (← heap) v i with
  | some x => return x
  | none => getNamed ev v (← propertyName ev i)

def setAt (ev : Evaluator) (v i x : Value) : Run Unit := do setNamed v (← propertyName ev i) x

end Run

end Scripting.Js
