/-
Values by the numbers that they were given: a new value gets the next number, and none is taken away.
A store that has been added to still leaves the store as it was, at little cost.
-/
import Std.Data.TreeMap

namespace Scripting.Js

structure Store (α : Type) where
  items : Std.TreeMap Nat α := {}
  size : Nat := 0

namespace Store

variable {α : Type}

instance : Inhabited (Store α) := ⟨{}⟩

/-- The value with a number, or a default where there is none. -/
def getD (s : Store α) (i : Nat) (default : α) : α := s.items.getD i default

/-- The store with one more value, and the number of the new one. -/
def add (s : Store α) (a : α) : Nat × Store α :=
  (s.size, { items := s.items.insert s.size a, size := s.size + 1 })

/-- The store with a change of one value. -/
def modify (s : Store α) (i : Nat) (f : α → α) : Store α := { s with items := s.items.modify i f }

end Store

end Scripting.Js
