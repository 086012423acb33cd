/-
Script values: scalars, records, aggregates in order or by key, plural snapshots and handles of host
objects. An aggregate and a plural carry their declared type, which equality ignores.
-/
import Scripting.ValueType.Basic
import Scripting.Number.Decimal
import Scripting.Assoc

namespace Scripting

/-- A key of a map. -/
inductive Key where
  | bool (b : Bool)
  | int (i : Int64)
  | string (s : String)
  deriving DecidableEq, Inhabited

namespace Key

def text : Key → String
  | .bool b => if b then "true" else "false"
  | .int i => toString i.toInt
  | .string s => s

/-- Booleans come first, false before true, then integers, then strings by code point. -/
def order : Key → Key → Ordering
  | .bool a, .bool b => compare a b
  | .bool _, _ => .lt
  | _, .bool _ => .gt
  | .int a, .int b => compare a.toInt b.toInt
  | .int _, _ => .lt
  | _, .int _ => .gt
  | .string a, .string b => compare a b

instance : Ord Key := ⟨order⟩

end Key

/-- A host object that scripts only pass around, told apart by its id. -/
structure Handle where
  id : String
  typeName : String
  deriving DecidableEq, Inhabited

/-- The handle with a number: the number fills the digits of its id. -/
def Handle.numbered (n : Nat) (typeName : String) : Handle :=
  let digits := Nat.toDigits 16 (n % 0x1000000000000)
  { id := "00000000-0000-4000-8000-" ++ String.ofList (List.replicate (12 - digits.length) '0' ++ digits)
    typeName }

/-- A script value. -/
inductive Value where
  | void
  | bool (b : Bool)
  | int (i : Int64)
  | float (x : Binary64)
  | string (s : String)
  /-- A named record with its fields in the order of their first assignment. -/
  | record (typeName : String) (fields : List (String × Value))
  /-- An aggregate whose elements are in order. -/
  | ordered (type : AggregateType) (items : List Value)
  /-- An aggregate whose elements are found by key, in ascending order of the keys. -/
  | keyed (type : AggregateType) (entries : List (Key × Value))
  /-- A fixed snapshot of elements. -/
  | plural (type : PluralType) (items : List Value)
  | handle (h : Handle)
  deriving Inhabited

namespace Value

/-- The declared type of a value. -/
def type : Value → ValueType
  | .void => .void
  | .bool _ => .boolean
  | .int _ => .int
  | .float _ => .float
  | .string _ => .string
  | .record typeName _ => .record typeName
  | .ordered type _ => type.toType
  | .keyed type _ => type.toType
  | .plural type _ => type.toType
  | .handle h => .handle h.typeName

/-- The sort of a value, as conversion errors name it. -/
def sortName : Value → String
  | .void => "void"
  | .bool _ => "boolean"
  | .int _ => "int"
  | .float _ => "float"
  | .string _ => "string"
  | .record .. => "record"
  | .ordered .. => "aggregate"
  | .keyed .. => "aggregate"
  | .plural .. => "plural"
  | .handle _ => "handle"

def isVoid : Value → Bool
  | .void => true
  | _ => false

end Value

/-! ## Records -/

/-- A named record. -/
structure Record where
  typeName : String
  fields : List (String × Value) := []
  deriving Inhabited

namespace Record

def toValue (r : Record) : Value := .record r.typeName r.fields

/-- A list of fields with one of them set: in place if the name is there, else at the end. -/
def setField (name : String) (value : Value) : List (String × Value) → List (String × Value)
  | [] => [(name, value)]
  | (n, v) :: rest => if n = name then (n, value) :: rest else (n, v) :: setField name value rest

/-- The first field of a name. -/
def getField (name : String) : List (String × Value) → Option Value
  | [] => none
  | (n, v) :: rest => if n = name then some v else getField name rest

def set (r : Record) (name : String) (value : Value) : Record :=
  { r with fields := setField name value r.fields }

def get? (r : Record) (name : String) : Option Value := getField name r.fields

/-- A record whose fields are set one after the other. -/
def ofFields (typeName : String) (fields : List (String × Value)) : Record :=
  fields.foldl (fun r f => r.set f.1 f.2) { typeName }

end Record

def Value.record? : Value → Option Record
  | .record typeName fields => some { typeName, fields }
  | _ => none

/-! ## Keys of values -/

/-- The value of a key. -/
def Key.toValue : Key → Value
  | .bool b => .bool b
  | .int i => .int i
  | .string s => .string s

/-- The key that a value can serve as. -/
def Value.key? : Value → Option Key
  | .bool b => some (.bool b)
  | .int i => some (.int i)
  | .string s => some (.string s)
  | _ => none

/-! ## Plurals -/

/-- A fixed snapshot of elements of one type. -/
structure Plural where
  type : PluralType
  items : List Value
  deriving Inhabited

namespace Plural

def ofItems (element : ValueType) (items : List Value) : Plural := ⟨{ element }, items⟩

def toValue (p : Plural) : Value := .plural p.type p.items

def size (p : Plural) : Nat := p.items.length

end Plural

def Value.plural? : Value → Option Plural
  | .plural type items => some ⟨type, items⟩
  | _ => none

def Value.handle? : Value → Option Handle
  | .handle h => some h
  | _ => none

end Scripting
