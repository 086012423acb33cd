/-
JSON trees. An object keeps its members in ascending order of their names, each name once, so two
trees with the same contents are equal.
-/
import Scripting.Assoc
import Scripting.Number.Decimal

namespace Scripting

/-- A number of a JSON tree: an integer from `-2^63` to `2^64 - 1`, or a finite double. -/
inductive Json.Number where
  | int (i : Int)
  | float (x : Binary64)
  deriving DecidableEq, Inhabited

inductive Json where
  | null
  | bool (b : Bool)
  | number (n : Json.Number)
  | string (s : String)
  | array (items : List Json)
  | object (members : List (String × Json))
  deriving Inhabited

namespace Json

/-- An object made from members in any order; of two with one name the later wins. -/
def ofMembers (members : List (String × Json)) : Json := .object (Assoc.ofList members)

/-- The member of an object under a name. -/
def member? (name : String) : Json → Option Json
  | .object members => Assoc.find? name members
  | _ => none

def int (i : Int) : Json := .number (.int i)

/-- A number as a double, an integer rounded to the nearest. -/
def Number.toBinary64 : Number → Binary64
  | .int i => Binary64.ofInt i
  | .float x => x

end Json

end Scripting
