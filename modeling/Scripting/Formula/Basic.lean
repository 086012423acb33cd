/-
Formulas: what the method of a shape or a native function can be made from without a script. A formula
looks at the receiving record, if there is one, and at the arguments.
-/
import Scripting.Value.Aggregate
import Scripting.Value.Convert
import Scripting.Value.Json

namespace Scripting

inductive Formula where
  | const (v : Value)
  | argument (index : Nat)
  /-- All arguments, as a list. -/
  | arguments
  /-- All arguments, as a plural. -/
  | snapshot
  | count
  /-- The sum of the arguments, which wraps around at 64 bits. -/
  | sum
  | fail (text : String)
  | field (name : String)
  | receiver
  /-- The record with a field set to the first argument. -/
  | assign (name : String)
  /-- The types and texts of the arguments. -/
  | describe
  /-- The type of the record. -/
  | typeName
  deriving Inhabited

namespace Formula

def argument? (args : List Value) (index : Nat) : Except String Value :=
  match args[index]? with
  | some v => .ok v
  | none => .error s!"missing argument {index}"

def addTo (sum : Int64) (v : Value) : Except String Int64 :=
  match v.asInt64 with
  | some i => .ok (sum + i)
  | none => .error s!"not a number: {v.type.text}"

/-- The value of a formula. -/
def eval (this : Option Record) (args : List Value) : Formula → Except String Value
  | .const v => .ok v
  | .argument index => argument? args index
  | .arguments => .ok (Value.list args)
  | .snapshot => .ok (Plural.ofItems .any args).toValue
  | .count => .ok (.int (Int64.ofNat args.length))
  | .sum => Value.int <$> args.foldlM addTo 0
  | .fail text => .error text
  | .field name => .ok ((this >>= (·.get? name)).getD .void)
  | .receiver => .ok ((this.map (·.toValue)).getD .void)
  | .assign name =>
    match this with
    | some r => (fun v => (r.set name v).toValue) <$> argument? args 0
    | none => .error "no record"
  | .describe =>
    .ok (.string (String.intercalate ", " (args.map fun v => v.type.text ++ ":" ++ v.text)))
  | .typeName => .ok ((this.map fun r => .string r.typeName).getD .void)

end Formula

end Scripting
