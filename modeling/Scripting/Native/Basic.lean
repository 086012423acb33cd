/-
Native functions: what the host offers to scripts by name. A native function is a routine of its
arguments, so it may wait, and it fails with a text.
-/
import Scripting.Routine.Basic
import Scripting.Value.Aggregate
import Scripting.Text.Quoted

namespace Scripting

/-- What a native function does with its arguments. -/
abbrev Native := List Value → Routine (Except String Value)

/-- A native function that asks the host for nothing. -/
def Native.pure (f : List Value → Except String Value) : Native := fun args => .done (f args)

/-- Native functions by their names. -/
abbrev Natives := Assoc String Native

namespace Natives

/-- Adds a function, in place of the one that has its name. -/
def register (natives : Natives) (name : String) (f : Native) : Natives :=
  Assoc.insert name f natives

def names (natives : Natives) : List String := Assoc.keys natives

/-- Calls the function of a name. -/
def call (natives : Natives) (name : String) : Native := fun args =>
  match Assoc.find? name natives with
  | some f => f args
  | none => .done (.error s!"no native function {name}")

def summary (natives : Natives) : String :=
  Text.summary "NativeLibrary" [("functions", Text.listing (natives.names.map Text.quoted))]

end Natives

end Scripting
