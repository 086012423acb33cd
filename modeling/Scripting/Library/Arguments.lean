/-
Reading the arguments of the host library. An argument that is left out and one that is void mean the
same.
-/
import Scripting.Native.Basic
import Scripting.Value.Convert
import Scripting.Value.Json

namespace Scripting.Library

/-- The argument at an index, unless it is void. -/
def optional (args : List Value) (i : Nat) : Option Value := args[i]?.filter fun v => !v.isVoid

/-- A string that has to be there. -/
def requiredString (args : List Value) (i : Nat) (name : String) : Except String String :=
  match optional args i with
  | none => .error s!"missing argument {name}"
  | some v =>
    match v.asString with
    | some s => .ok s
    | none => .error s!"{name} must be a string, got {v.type.text}"

/-- A string that may be left out. -/
def optionalString (args : List Value) (i : Nat) : Except String (Option String) :=
  match optional args i with
  | none => .ok none
  | some v =>
    match v.asString with
    | some s => .ok (some s)
    | none => .error s!"argument {i} must be a string, got {v.type.text}"

/-- A positive number of milliseconds; every other number counts as left out. -/
def optionalMillis (args : List Value) (i : Nat) : Except String (Option Nat) :=
  match optional args i with
  | none => .ok none
  | some v =>
    match v.asInt64 with
    | some n => .ok (if 0 < n.toInt then some n.toInt.toNat else none)
    | none => .error s!"argument {i} must be milliseconds, got {v.text}"

/-- An integer of a value that is not negative and below a limit. -/
def boundedInt? (limit : Nat) (v : Value) : Option Nat :=
  v.asInt64 >>= fun i => if 0 ≤ i.toInt ∧ i.toInt < limit then some i.toInt.toNat else none

/-- The handle of a stream. -/
def requiredHandle (args : List Value) (i : Nat) : Except String UInt32 :=
  match optional args i with
  | none => .error "missing argument handle"
  | some v =>
    match boundedInt? UInt32.size v with
    | some n => .ok n.toUInt32
    | none => .error s!"handle must be a number, got {v.text}"

/-- The code of a close. -/
def optionalCloseCode (args : List Value) (i : Nat) : Except String (Option UInt16) :=
  match optional args i with
  | none => .ok none
  | some v =>
    match boundedInt? UInt16.size v with
    | some n => .ok (some n.toUInt16)
    | none => .error s!"code must be a close code, got {v.text}"

end Scripting.Library
