/-
Aggregates: an ordered one takes the place of an existing index or the next free one, below its size
if it has one; a keyed one takes every key.
-/
import Scripting.Value.Basic

namespace Scripting

/-- The elements of an aggregate. -/
inductive Elements where
  | ordered (items : List Value)
  | keyed (entries : Assoc Key Value)
  deriving Inhabited

structure Aggregate where
  type : AggregateType
  elements : Elements
  deriving Inhabited

namespace Aggregate

/-- An empty aggregate of a type. -/
def empty (type : AggregateType) : Aggregate :=
  ⟨type, if type.isOrdered then .ordered [] else .keyed []⟩

/-- A list of elements. -/
def list (data : ValueType) (items : List Value) : Aggregate :=
  ⟨AggregateType.list data, .ordered items⟩

/-- A map from entries in any order; of two with one key the later wins. It finds its elements by
key also where the index type is an integer. -/
def map (index data : ValueType) (entries : List (Key × Value)) : Aggregate :=
  ⟨AggregateType.map index data, .keyed (Assoc.ofList entries)⟩

def toValue (a : Aggregate) : Value :=
  match a.elements with
  | .ordered items => .ordered a.type items
  | .keyed entries => .keyed a.type entries

def size (a : Aggregate) : Nat :=
  match a.elements with
  | .ordered items => items.length
  | .keyed entries => entries.length

/-- The natural number of an index that is not negative. -/
def position? (i : Int64) : Option Nat := if 0 ≤ i.toInt then some i.toInt.toNat else none

/-- The element under a key. -/
def get? (a : Aggregate) (k : Key) : Option Value :=
  match a.elements, k with
  | .ordered items, .int i => position? i >>= fun n => items[n]?
  | .ordered _, _ => none
  | .keyed entries, k => Assoc.find? k entries

/-- Whether an ordered aggregate with this many elements takes one at an index. -/
def takes (type : AggregateType) (length index : Nat) : Bool :=
  index ≤ length && type.size.all fun n => index < n.toNat

/-- Stores an element under a key. -/
def insert (a : Aggregate) (k : Key) (v : Value) : Except TypeError Aggregate :=
  match a.elements, k with
  | .keyed entries, k => .ok { a with elements := .keyed (Assoc.insert k v entries) }
  | .ordered items, .int i =>
    match (position? i).filter (takes a.type items.length) with
    | some n =>
      .ok { a with elements := .ordered (if n = items.length then items ++ [v] else items.set n v) }
    | none => .error (.outOfBounds a.type.text i)
  | .ordered _, k => .error (.mismatch a.type.index.text k.toValue.type.text)

/-- An aggregate of a type with entries inserted in order; the first that does not fit is the
answer. -/
def ofEntries (type : AggregateType) (entries : List (Key × Value)) : Except TypeError Aggregate :=
  entries.foldlM (fun a e => a.insert e.1 e.2) (empty type)

end Aggregate

def Value.aggregate? : Value → Option Aggregate
  | .ordered type items => some ⟨type, .ordered items⟩
  | .keyed type entries => some ⟨type, .keyed entries⟩
  | _ => none

/-- A list of dynamically typed values. -/
def Value.list (items : List Value) : Value := (Aggregate.list .any items).toValue

end Scripting
