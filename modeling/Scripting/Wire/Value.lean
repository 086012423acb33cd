/-
The wire form of values: JSON that, other than the JSON of a script, keeps the sort and the declared
type of every value, and doubles bit for bit.
-/
import Scripting.Wire.Reader
import Scripting.Value.Aggregate
import Scripting.Text.Quoted

namespace Scripting.Wire

/-! ## Numbers -/

/-- The number that hexadecimal digits stand for. -/
def ofHex (digits : List Char) : Nat :=
  digits.foldl (fun n c =>
    let d := if c.isDigit then c.toNat - '0'.toNat else c.toLower.toNat - 'a'.toNat + 10
    n * 16 + d) 0

/-- The bytes that pairs of hexadecimal digits stand for. -/
def bytesOfHex : List Char → List UInt8
  | a :: b :: rest => (ofHex [a, b]).toUInt8 :: bytesOfHex rest
  | _ => []

/-- The bytes that a text of hexadecimal digits stands for. -/
def ofHexText (s : String) : ByteArray := ⟨(bytesOfHex s.toList).toArray⟩

/-- An integer in decimal digits. -/
def integer (j : Json) : Read Int64 := do
  match (← text j).toInt? with
  | some i => return i.toInt64
  | none => malformed "not an integer"

/-- A double as its sixteen hexadecimal digits; every NaN is the one. -/
def double (j : Json) : Read Binary64 := do
  let s ← text j
  return if s = "nan" then Binary64.nan else ⟨(ofHex s.toList).toUInt64⟩

def ofInteger (i : Int) : Json := .string (toString i)

def ofDouble (x : Binary64) : Json :=
  .string (if x.isNaN then "nan" else Text.hexPadded 16 x.bits.toNat)

/-! ## Reading -/

def type (j : Json) : Read ValueType := (ValueType.decode j).mapError .type

def typeOf (j : Json) (name : String) : Read ValueType := type (member j name)

/-- A key, where its value can be read. -/
def keyBy (read : Json → Read Value) (j : Json) : Read Key := do
  match (← read j).key? with
  | some k => return k
  | none => malformed "not a key"

def entriesBy (read : Json → Read Value) (j : Json) : Read (List (Key × Value)) := do
  (← items j).mapM fun e => do
    let (k, v) ← pair e
    return (← keyBy read k, ← read v)

/-- A record, whose fields are set one by one unless they are to be taken as they are. -/
def recordBy (read : Json → Read Value) (j : Json) : Read Record := do
  let typeName ← textOf j "type"
  let fields ← (← itemsOf j "fields").mapM fun f => do
    let (n, v) ← pair f
    return (← text n, ← read v)
  return if flagOf j "raw" then { typeName, fields } else Record.ofFields typeName fields

/-- A value of at most so many levels. -/
def valueWithin : Nat → Json → Read Value
  | 0, _ => malformed "too deep"
  | n + 1, j => do
    let read := valueWithin n
    match ← textOf j "t" with
    | "void" => return .void
    | "bool" => return .bool (flagOf j "v")
    | "int" => return .int (← integer (member j "v"))
    | "float" => return .float (← double (member j "bits"))
    | "string" => return .string (← textOf j "v")
    | "record" => return (← recordBy read j).toValue
    | "list" =>
      let element ← typeOf j "elem"
      return (Aggregate.list element (← (← itemsOf j "items").mapM read)).toValue
    | "map" =>
      let index ← typeOf j "index"
      let data ← typeOf j "data"
      return (Aggregate.map index data (← entriesBy read (member j "entries"))).toValue
    | "agg" =>
      match (← typeOf j "type").aggregate? with
      | some t =>
        let entries ← entriesBy read (member j "entries")
        return (← (Aggregate.ofEntries t entries).mapError .entry).toValue
      | none => malformed "not an aggregate type"
    | "plural" =>
      let element ← typeOf j "elem"
      return (Plural.ofItems element (← (← itemsOf j "items").mapM read)).toValue
    | "handle" => return .handle ⟨← textOf j "id", ← textOf j "type"⟩
    | sort => malformed s!"unknown sort of value {sort}"

def value (j : Json) : Read Value := valueWithin (levels j) j

def valueOf (j : Json) (name : String) : Read Value := value (member j name)

def valuesOf (j : Json) (name : String) : Read (List Value) := do (← itemsOf j name).mapM value

def key (j : Json) : Read Key := keyBy value j

def record (j : Json) : Read Record := recordBy value j

def recordOf (j : Json) (name : String) : Read Record := record (member j name)

/-! ## Writing -/

/-- The form of a value of a sort. -/
def sorted (sort : String) (parts : List (String × Json)) : Json :=
  Json.ofMembers (("t", .string sort) :: parts)

mutual

def ofValue : Value → Json
  | .void => sorted "void" []
  | .bool b => sorted "bool" [("v", .bool b)]
  | .int i => sorted "int" [("v", ofInteger i.toInt)]
  | .float x => sorted "float" [("bits", ofDouble x)]
  | .string s => sorted "string" [("v", .string s)]
  | .record typeName fields =>
    sorted "record" [("type", .string typeName), ("fields", .array (ofFields fields))]
  | .ordered t items => sorted "agg" [("type", t.toType.toJson), ("ordered", .array (ofItems items))]
  | .keyed t entries => sorted "agg" [("type", t.toType.toJson), ("keyed", .array (ofEntries entries))]
  | .plural t items => sorted "plural" [("type", t.toType.toJson), ("items", .array (ofItems items))]
  | .handle h => sorted "handle" [("id", .string h.id), ("type", .string h.typeName)]

def ofItems : List Value → List Json
  | [] => []
  | v :: rest => ofValue v :: ofItems rest

def ofFields : List (String × Value) → List Json
  | [] => []
  | (n, v) :: rest => .array [.string n, ofValue v] :: ofFields rest

def ofEntries : List (Key × Value) → List Json
  | [] => []
  | (k, v) :: rest => .array [ofKey k, ofValue v] :: ofEntries rest

/-- The form of a key is that of its value. -/
def ofKey : Key → Json
  | .bool b => sorted "bool" [("v", .bool b)]
  | .int i => sorted "int" [("v", ofInteger i.toInt)]
  | .string s => sorted "string" [("v", .string s)]

end

def ofRecord (r : Record) : Json := ofValue r.toValue

end Scripting.Wire
