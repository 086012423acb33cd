/-
Preferences from a TOML document: every value that is no table, under the keys that lead to it, with
dots between them. A string stands for itself and every other value for its text.
-/
import Scripting.Net.Preferences
import Scripting.Toml.Printer
import Scripting.Toml.Reader

namespace Scripting.Net

/-- The key of an entry of a table; an empty key of the table adds nothing. -/
def joinKeys (table key : String) : String := if table.isEmpty then key else table ++ "." ++ key

/-- The entry that a date or a time stands for on its own. -/
def dateTimeEntry (text : String) : Toml :=
  .table [("$__toml_private_datetime", .string text)]

/-- The text of a value that is a preference. -/
def preferenceText : Toml → String
  | .string s => s
  | .dateTime s => (dateTimeEntry s).text
  | v => v.text

mutual

/-- The preferences of a value under a key, in order. -/
def preferencesOf (key : String) : Toml → List (String × String)
  | .table entries => preferencesOfEntries key entries
  | v => [(key, preferenceText v)]

def preferencesOfEntries (table : String) : List (String × Toml) → List (String × String)
  | [] => []
  | (k, v) :: rest => preferencesOf (joinKeys table k) v ++ preferencesOfEntries table rest

end

/-- Adds the preferences of a document; of two under one key the later wins. -/
def Preferences.load (p : Preferences) (document : Toml.Table) : Preferences :=
  (preferencesOfEntries "" document).foldl (fun p e => p.set e.1 e.2) p

end Scripting.Net
