/-
Values as JSON trees, and values from JSON trees. A record is an object whose member `__type__` is the
name of its type; in reading, every other object is a map from strings. What has no JSON form, a
number that is not finite, becomes null.
-/
import Scripting.Number.Width
import Scripting.Value.Aggregate
import Scripting.Json.Printer
import Scripting.Json.Parser

namespace Scripting.Value

/-- The member that names the type of a record. -/
def typeMember : String := "__type__"

/-- The member that holds the id of a handle. -/
def handleMember : String := "__handle__"

mutual

/-- The tree of a value. The name of a record's type takes the place of a field of that name; of two
fields with one name the later wins. -/
def toJson : Value → Json
  | .void => .null
  | .bool b => .bool b
  | .int i => .int i.toInt
  | .float x => if x.isFinite then .number (.float x) else .null
  | .string s => .string s
  | .record typeName fields =>
    .object (Assoc.insert typeMember (.string typeName) (Assoc.ofList (fieldsToJson fields)))
  | .ordered _ items => .array (itemsToJson items)
  | .keyed _ entries => .object (Assoc.ofList (entriesToJson entries))
  | .plural _ items => .array (itemsToJson items)
  | .handle h => .object [(handleMember, .string h.id), (typeMember, .string h.typeName)]

def itemsToJson : List Value → List Json
  | [] => []
  | v :: rest => v.toJson :: itemsToJson rest

def fieldsToJson : List (String × Value) → List (String × Json)
  | [] => []
  | (n, v) :: rest => (n, v.toJson) :: fieldsToJson rest

def entriesToJson : List (Key × Value) → List (String × Json)
  | [] => []
  | (k, v) :: rest => (k.text, v.toJson) :: entriesToJson rest

end

/-- The value of a number: an integer of 64 bits is one, every other number is a double. -/
def ofNumber (n : Json.Number) : Value :=
  match n with
  | .int i => (int64? i).elim (.float n.toBinary64) .int
  | .float x => .float x

mutual

/-- The value of a tree. -/
def ofJson : Json → Value
  | .null => .void
  | .bool b => .bool b
  | .number n => ofNumber n
  | .string s => .string s
  | .array items => (Aggregate.list .any (itemsOfJson items)).toValue
  | .object members =>
    let rest := fieldsOfJson members
    match Assoc.find? typeMember members with
    | some (.string typeName) => (Record.ofFields typeName rest).toValue
    | _ => (Aggregate.map .string .any (rest.map fun f => (.string f.1, f.2))).toValue

def itemsOfJson : List Json → List Value
  | [] => []
  | j :: rest => ofJson j :: itemsOfJson rest

/-- The members of an object as fields, without the one that names its type. -/
def fieldsOfJson : List (String × Json) → List (String × Value)
  | [] => []
  | (n, j) :: rest => if n = typeMember then fieldsOfJson rest else (n, ofJson j) :: fieldsOfJson rest

end

/-- The text of a value: scalars plainly, all others as compact JSON. -/
def text : Value → String
  | .void => ""
  | .bool b => if b then "true" else "false"
  | .int i => toString i.toInt
  | .float x => Decimal.plain.write x
  | .string s => s
  | v => v.toJson.text

end Scripting.Value
