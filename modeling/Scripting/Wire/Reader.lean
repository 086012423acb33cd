/-
Readers of the wire form, the JSON in which a tool describes values, shapes and programs to a host.
-/
import Scripting.ValueType.Decode

namespace Scripting.Wire

/-- Why a description is no good. -/
inductive Error where
  | malformed (what : String)
  | type (e : ValueType.DecodeError)
  /-- An aggregate does not take one of its entries. -/
  | entry (e : TypeError)

/-- What is read, or why it cannot be. -/
abbrev Read (α : Type) := Except Error α

def malformed {α : Type} (what : String) : Read α := .error (.malformed what)

/-! ## Trees -/

def text : Json → Read String
  | .string s => .ok s
  | j => malformed s!"not a text: {j.text}"

/-- The number of 64 bits that a tree is. -/
def natural? : Json → Option Nat
  | .number (.int i) => if 0 ≤ i ∧ i.toNat < UInt64.size then some i.toNat else none
  | _ => none

def items : Json → Read (List Json)
  | .array l => .ok l
  | .null => .ok []
  | j => malformed s!"not a list: {j.text}"

def pair : Json → Read (Json × Json)
  | .array [a, b] => .ok (a, b)
  | j => malformed s!"not a pair: {j.text}"

/-- Whether a tree is the boolean true. -/
def isTrue : Json → Bool
  | .bool b => b
  | _ => false

def members : Json → List (String × Json)
  | .object ms => ms
  | _ => []

/-! ## Members -/

/-- The member of a name, null where there is none. -/
def member (j : Json) (name : String) : Json := (j.member? name).getD .null

/-- The member of a name, unless it is null. -/
def given? (j : Json) (name : String) : Option Json :=
  match j.member? name with
  | some .null => none
  | r => r

def textOf (j : Json) (name : String) : Read String := text (member j name)

def textOf? (j : Json) (name : String) : Read (Option String) := (given? j name).mapM text

def naturalOf (j : Json) (name : String) : Read Nat :=
  match natural? (member j name) with
  | some n => .ok n
  | none => malformed s!"number field {name} expected"

def naturalOf? (j : Json) (name : String) : Read (Option Nat) :=
  (given? j name).mapM fun _ => naturalOf j name

def itemsOf (j : Json) (name : String) : Read (List Json) := items (member j name)

def textsOf (j : Json) (name : String) : Read (List String) := do (← itemsOf j name).mapM text

def flagOf (j : Json) (name : String) : Bool := isTrue (member j name)

/-- The members of an object that is a member, with their texts. -/
def tableOf (j : Json) (name : String) : Read (List (String × String)) :=
  (members (member j name)).mapM fun (n, t) => return (n, ← text t)

/-! ## Depth -/

mutual

/-- The number of levels of a tree. -/
def levels : Json → Nat
  | .array l => levelsOfItems l + 1
  | .object ms => levelsOfMembers ms + 1
  | _ => 1

def levelsOfItems : List Json → Nat
  | [] => 0
  | j :: rest => max (levels j) (levelsOfItems rest)

def levelsOfMembers : List (String × Json) → Nat
  | [] => 0
  | (_, j) :: rest => max (levels j) (levelsOfMembers rest)

end

end Scripting.Wire
