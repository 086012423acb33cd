/-
TOML values. A table keeps its entries in ascending order of their keys.
-/
import Scripting.Assoc
import Scripting.Number.Binary64

namespace Scripting

inductive Toml where
  | string (s : String)
  | integer (i : Int64)
  | float (x : Binary64)
  | boolean (b : Bool)
  /-- A date, a time or both, as it is written. -/
  | dateTime (text : String)
  | array (items : List Toml)
  | table (entries : List (String × Toml))
  deriving Inhabited

/-- A whole document. -/
abbrev Toml.Table := Assoc String Toml

end Scripting
