/-
The configuration of a host: the directories of its scripts, the capacity of its channels and the
preferences it starts with. It is read from three layers: the defaults, a file, and environment
variables.
-/
import Scripting.Config.Variable
import Scripting.Toml.Reader
import Scripting.Net.PreferenceFile

namespace Scripting

structure Config where
  /-- The directories that are searched for scripts, in order. -/
  scriptDirectories : List String := ["scripts"]
  /-- The most messages of a channel. -/
  channelCapacity : Option Nat := none
  preferences : Toml.Table := []
  deriving Inhabited

namespace Config

/-- Why a configuration is refused. -/
inductive Cause where
  /-- The file is no document. -/
  | syntaxError
  | invalidType (found expected : String)
  | invalidValue (found expected : String)
  | tooLarge
  deriving DecidableEq

structure Error where
  cause : Cause
  /-- The keys that lead to the datum. -/
  path : List String := []
  layer : Layer

namespace Error

/-- The text of a cause that has a form of its own. -/
def causeText? (e : Error) : Option String :=
  match e.cause with
  | .invalidType found expected => some s!"invalid type: found {found}, expected {expected}"
  | .invalidValue found expected => some s!"invalid value {found}, expected {expected}"
  | _ => none

/-- The keys as their layer writes them. -/
def keyText (e : Error) : String :=
  match e.layer with
  | .environment => String.intercalate "." (e.path.map Text.upper)
  | _ => String.intercalate "." ("default" :: e.path)

def message (e : Error) : String :=
  let cause := match e.cause with
    | .syntaxError => "TOML parse error"
    | .tooLarge => "u64 value was too large"
    | _ => e.causeText?.getD ""
  let place := if e.path.isEmpty then "" else " for key " ++ Text.quoted e.keyText
  cause ++ place ++ match e.layer with
    | .defaults => ""
    | .file name => " in " ++ name ++ " TOML file"
    | .environment => " in \x60" ++ variableStart ++ "\x60 environment variable(s)"

end Error

/-! ## Reading the layers -/

def mismatch {α : Type} (d : Datum) (path : List String) (expected : String) : Except Error α :=
  .error ⟨.invalidType d.description expected, path, d.layer⟩

def readCapacity (path : List String) (d : Datum) : Except Error (Option Nat) :=
  match d with
  | .scalar _ .empty => .ok none
  | .scalar _ (.unsigned n) => .ok (some n.toNat)
  | .scalar l (.signed i) =>
    if 0 ≤ i.toInt then .ok (some i.toInt.toNat)
    else .error ⟨.invalidValue d.description "usize", path, l⟩
  | d => mismatch d path "usize"

def readDirectory (path : List String) (d : Datum) : Except Error String :=
  match d with
  | .scalar _ (.string s) => .ok s
  | .scalar _ (.char c) => .ok c.toString
  | d => mismatch d path "path string"

def readDirectories (path : List String) (d : Datum) : Except Error (List String) :=
  match d with
  | .array _ items =>
    items.zipIdx.mapM fun (item, i) => readDirectory (path ++ [toString i]) item
  | d => mismatch d path "a sequence"

mutual

/-- A preference. -/
def readPreference (path : List String) : Datum → Except Error Toml
  | .scalar l v =>
    match v with
    | .empty => mismatch (.scalar l v) path "any valid TOML value"
    | .boolean b => .ok (.boolean b)
    | .signed i => .ok (.integer i)
    | .unsigned n =>
      match int64? n.toNat with
      | some i => .ok (.integer i)
      | none => .error ⟨.tooLarge, path, l⟩
    | .float x => .ok (.float x)
    | .char c => .ok (.string c.toString)
    | .string s => .ok (.string s)
    | .dateTime s => .ok (.dateTime s)
  | .array _ items => .array <$> readItems path 0 items
  | .table _ entries => .table <$> readEntries path entries

def readItems (path : List String) (i : Nat) : List Datum → Except Error (List Toml)
  | [] => .ok []
  | d :: rest => do
    let v ← readPreference (path ++ [toString i]) d
    return v :: (← readItems path (i + 1) rest)

def readEntries (path : List String) : List (String × Datum) → Except Error (List (String × Toml))
  | [] => .ok []
  | (k, d) :: rest => do
    let v ← readPreference (path ++ [k]) d
    return (k, v) :: (← readEntries path rest)

end

def readPreferences (path : List String) (d : Datum) : Except Error Toml.Table :=
  match d with
  | .table _ entries => readEntries path entries
  | d => mismatch d path "a map"

/-- The configuration that the layers together say; what it does not know is left aside. -/
def ofDatum (d : Datum) : Except Error Config := do
  match d with
  | .table _ entries =>
    let read {α : Type} (key : String) (otherwise : α) (f : List String → Datum → Except Error α) :
        Except Error α :=
      match Assoc.find? key entries with
      | some d => f [key] d
      | none => .ok otherwise
    let channelCapacity ← read "channel_capacity" none readCapacity
    let preferences ← read "preferences" [] readPreferences
    let scriptDirectories ← read "script_dirs" ["scripts"] readDirectories
    return { scriptDirectories, channelCapacity, preferences }
  | _ => return {}

/-- The configuration of a file, which has a name and a text, and of environment variables. -/
def load (file : Option (String × String)) (environment : List (String × String)) :
    Except Error Config := do
  let fromFile ← match file with
    | none => .ok (.table .defaults [])
    | some (name, text) =>
      match Toml.parse? text with
      | some entries => .ok (Datum.ofToml (.file name) (.table entries))
      | none => .error ⟨.syntaxError, [], .file name⟩
  ofDatum (fromFile.overlay (ofVariables environment))

/-! ## Use -/

/-- The preferences that a host starts with. -/
def startPreferences (c : Config) : Net.Preferences := Net.Preferences.load [] c.preferences

/-- The parts of a path that tell paths apart: the first, and every other that leads somewhere. -/
def pathParts (path : String) : List String :=
  match path.splitOn "/" with
  | [] => []
  | first :: rest => first :: rest.filter fun part => part ≠ "" ∧ part ≠ "."

/-- Whether nothing in a configuration differs from the defaults. -/
def isDefault (c : Config) : Bool :=
  c.scriptDirectories.map pathParts == [["scripts"]] && c.channelCapacity.isNone &&
    c.preferences.isEmpty

end Config

end Scripting
