/-
The wire form of declarations: shapes and native functions whose bodies are formulas.
-/
import Scripting.Wire.Value
import Scripting.Formula.Basic
import Scripting.Shape.Basic
import Scripting.Native.Basic

namespace Scripting.Wire

def formula (j : Json) : Read Formula := do
  match ← textOf j "fn" with
  | "const" => return .const (← valueOf j "value")
  | "arg" => return .argument (← naturalOf j "index")
  | "args" => return .arguments
  | "plural" => return .snapshot
  | "count" => return .count
  | "sum" => return .sum
  | "fail" => return .fail (← textOf j "message")
  | "field" => return .field (← textOf j "name")
  | "self" => return .receiver
  | "with" => return .assign (← textOf j "name")
  | "describe" => return .describe
  | "type_name" => return .typeName
  | name => malformed s!"unknown formula {name}"

/-- A shape: its accessors, then those under other names, then its methods. -/
def shape (j : Json) : Read Shape := do
  let s ← match given? j "from_record" with
    | some r => Shape.ofRecord <$> record r
    | none => do
      let name ← textOf j "name"
      pure { name }
  let s := s.accessors (← textsOf j "accessors")
  let s ← (← itemsOf j "renamed").foldlM (fun s p => do
    let (method, field) ← pair p
    return s.accessor (← text method) (← text field)) s
  (← itemsOf j "methods").foldlM (fun s p => do
    let (method, f) ← pair p
    let f ← formula f
    return s.method (← text method) fun r args => f.eval (some r) args) s

def shapesOf (j : Json) (name : String) : Read Shapes := do
  (← itemsOf j name).foldlM (fun shapes s => return Shapes.register shapes (← shape s)) []

def native (j : Json) : Read Native := do
  let f ← formula j
  return Native.pure fun args => f.eval none args

def nativesOf (j : Json) (name : String) : Read Natives := do
  (← itemsOf j name).foldlM (fun natives p => do
    let (n, f) ← pair p
    return Natives.register natives (← text n) (← native f)) []

end Scripting.Wire
