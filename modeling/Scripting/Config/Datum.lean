/-
What the layers of a configuration say. Every datum remembers the layer it comes from, so that an
error can name it; a later layer adds to the tables of an earlier one and replaces all else.
-/
import Scripting.Toml.Basic
import Scripting.Number.Decimal
import Scripting.Text.Quoted

namespace Scripting.Config

/-- One layer of a configuration. -/
inductive Layer where
  | defaults
  | file (name : String)
  | environment
  deriving DecidableEq, Inhabited

inductive Scalar where
  | empty
  | boolean (b : Bool)
  /-- An integer of a document. -/
  | signed (i : Int64)
  /-- An integer of a variable that has no sign. -/
  | unsigned (n : UInt64)
  | float (x : Binary64)
  | char (c : Char)
  | string (s : String)
  | dateTime (text : String)
  deriving DecidableEq, Inhabited

inductive Datum where
  | scalar (layer : Layer) (v : Scalar)
  | array (layer : Layer) (items : List Datum)
  | table (layer : Layer) (entries : List (String × Datum))
  deriving Inhabited

namespace Datum

def layer : Datum → Layer
  | .scalar l _ => l
  | .array l _ => l
  | .table l _ => l

/-- How an error names a datum. -/
def description : Datum → String
  | .scalar _ v =>
    match v with
    | .empty => "unit"
    | .boolean b => if b then "bool true" else "bool false"
    | .signed i => "signed int \x60" ++ toString i.toInt ++ "\x60"
    | .unsigned n => "unsigned int \x60" ++ toString n.toNat ++ "\x60"
    | .float x => "float \x60" ++ Decimal.plain.write x ++ "\x60"
    | .char c => "char '" ++ c.toString ++ "'"
    | .string s => "string " ++ Text.quoted s
    | .dateTime _ => "map"
  | .array .. => "sequence"
  | .table .. => "map"

mutual

/-- The datum of a value in a file. -/
def ofToml (l : Layer) : Toml → Datum
  | .string s => .scalar l (.string s)
  | .integer i => .scalar l (.signed i)
  | .float x => .scalar l (.float x)
  | .boolean b => .scalar l (.boolean b)
  | .dateTime s => .scalar l (.dateTime s)
  | .array items => .array l (ofTomlItems l items)
  | .table entries => .table l (ofTomlEntries l entries)

def ofTomlItems (l : Layer) : List Toml → List Datum
  | [] => []
  | v :: rest => ofToml l v :: ofTomlItems l rest

def ofTomlEntries (l : Layer) : List (String × Toml) → List (String × Datum)
  | [] => []
  | (k, v) :: rest => (k, ofToml l v) :: ofTomlEntries l rest

end

mutual

/-- A datum with a later one laid over it. -/
def overlay (old : Datum) : Datum → Datum
  | .table l new =>
    match old with
    | .table _ entries => .table l (overlayEntries entries new)
    | _ => .table l new
  | new => new

def overlayEntries (old : List (String × Datum)) : List (String × Datum) → List (String × Datum)
  | [] => old
  | (k, d) :: rest =>
    let d := match Assoc.find? k old with
      | some o => overlay o d
      | none => d
    overlayEntries (Assoc.insert k d old) rest

end

end Datum

end Scripting.Config
