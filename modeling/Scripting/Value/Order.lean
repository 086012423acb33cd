/-
Equality and order of values. Equality compares contents and ignores the declared types of aggregates
and plurals; only scalars of one sort are ordered.
-/
import Scripting.Value.Aggregate

namespace Scripting.Value

mutual

/-- Equality of contents. A NaN differs from itself. -/
def same : Value → Value → Bool
  | .void, .void => true
  | .bool a, .bool b => a == b
  | .int a, .int b => a == b
  | .float a, .float b => a.same b
  | .string a, .string b => a == b
  | .record a fields, .record b fields' => a == b && sameFields fields fields'
  | .ordered _ items, .ordered _ items' => sameItems items items'
  | .keyed _ entries, .keyed _ entries' => sameEntries entries entries'
  | .plural _ items, .plural _ items' => sameItems items items'
  | .handle a, .handle b => a == b
  | _, _ => false

def sameItems : List Value → List Value → Bool
  | [], [] => true
  | a :: rest, b :: rest' => same a b && sameItems rest rest'
  | _, _ => false

def sameFields : List (String × Value) → List (String × Value) → Bool
  | [], [] => true
  | (n, a) :: rest, (n', b) :: rest' => n == n' && same a b && sameFields rest rest'
  | _, _ => false

def sameEntries : List (Key × Value) → List (Key × Value) → Bool
  | [], [] => true
  | (k, a) :: rest, (k', b) :: rest' => k == k' && same a b && sameEntries rest rest'
  | _, _ => false

end

/-- The order of two values: scalars of one sort by their contents, all others only where they are
equal. -/
def compare? (a b : Value) : Option Ordering :=
  match a, b with
  | .void, .void => some .eq
  | .bool a, .bool b => some (compare a b)
  | .int a, .int b => some (compare a.toInt b.toInt)
  | .float a, .float b => a.compare? b
  | .string a, .string b => some (compare a b)
  | a, b => if same a b then some .eq else none

end Scripting.Value

namespace Scripting

/-- Equality of the elements of two aggregates. -/
def Aggregate.same (a b : Aggregate) : Bool := a.toValue.same b.toValue

/-- Whether a snapshot has an element that equals a value. -/
def Plural.contains (p : Plural) (v : Value) : Bool := p.items.any (·.same v)

end Scripting
