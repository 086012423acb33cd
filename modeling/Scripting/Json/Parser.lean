/-
JSON trees from tokens. Open arrays and objects wait on a stack, and each token moves the reader one
step; a text that nests 128 containers or more is refused.
-/
import Scripting.Json.Token

namespace Scripting.Json

/-- A container that is open around the value being read; the items of an array are kept last
first. -/
inductive Frame where
  | array (items : List Json)
  | object (members : List (String × Json)) (name : String)

/-- What the next token may be. `first` permits the closing bracket of an empty container. -/
inductive Progress where
  | value (first : Bool) (stack : List Frame)
  | memberName (first : Bool) (members : List (String × Json)) (stack : List Frame)
  | memberColon (name : String) (members : List (String × Json)) (stack : List Frame)
  | after (value : Json) (stack : List Frame)

namespace Progress

/-- The most containers that may be open at once. -/
def depthLimit : Nat := 127

/-- One token further. -/
def step : Progress → Token → Option Progress
  | .value first stack, t =>
    match t with
    | .null => some (.after .null stack)
    | .bool b => some (.after (.bool b) stack)
    | .number n => some (.after (.number n) stack)
    | .string s => some (.after (.string s) stack)
    | .openBracket =>
      if stack.length < depthLimit then some (.value true (.array [] :: stack)) else none
    | .openBrace => if stack.length < depthLimit then some (.memberName true [] stack) else none
    | .closeBracket =>
      match first, stack with
      | true, .array _ :: rest => some (.after (.array []) rest)
      | _, _ => none
    | _ => none
  | .memberName first members stack, t =>
    match t with
    | .string s => some (.memberColon s members stack)
    | .closeBrace => if first then some (.after (.object members) stack) else none
    | _ => none
  | .memberColon name members stack, t =>
    match t with
    | .colon => some (.value false (.object members name :: stack))
    | _ => none
  | .after v (.array items :: rest), t =>
    match t with
    | .comma => some (.value false (.array (v :: items) :: rest))
    | .closeBracket => some (.after (.array (v :: items).reverse) rest)
    | _ => none
  | .after v (.object members name :: rest), t =>
    match t with
    | .comma => some (.memberName false (Assoc.insert name v members) rest)
    | .closeBrace => some (.after (.object (Assoc.insert name v members)) rest)
    | _ => none
  | .after _ [], _ => none

/-- The tree, where it is complete. -/
def result? : Progress → Option Json
  | .after v [] => some v
  | _ => none

end Progress

/-- The tree of a list of tokens. -/
def ofTokens? (tokens : List Token) : Option Json :=
  tokens.foldlM Progress.step (.value false []) >>= Progress.result?

/-- The tree of a JSON text. -/
def parse? (text : String) : Option Json := tokens? text >>= ofTokens?

end Scripting.Json
