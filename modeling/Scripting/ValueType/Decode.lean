/-
Types from JSON trees. A type is an object with a `kind`, or an array whose first item is the kind and
whose others are the parts in order. Inside another type a kind may also be given by its number. The
members of an object are looked at in the order of their names, and the first fault is the answer.
-/
import Scripting.ValueType.Json
import Scripting.Json.Printer

namespace Scripting

namespace ValueType

/-- What a tree is not, and what it should have been. -/
inductive DecodeError where
  /-- The tree is of the wrong kind. -/
  | unexpected (found : Json) (expected : String)
  /-- The tree is of the right kind but its value is out of range. -/
  | invalidValue (found : Json) (expected : String)
  | missingField (name : String)
  | unknownKind (name : String)
  | wrongLength (length : Nat) (expected : String)

/-- How an error message names a tree. -/
def describe : Json → String
  | .null => "null"
  | .bool b => s!"boolean `{b}`"
  | .number n =>
    match n with
    | .int i => s!"integer `{i}`"
    | .float x => s!"floating point `{Json.numberLayout.write x}`"
  | .string s => "string " ++ Text.quoted s
  | .array _ => "sequence"
  | .object _ => "map"

/-- The names of the kinds, in the order of their numbers. -/
def kindNames : List String :=
  ["void", "boolean", "int", "float", "string", "record", "aggregate", "plural", "handle", "any"]

def DecodeError.message : DecodeError → String
  | .unexpected found expected => s!"invalid type: {describe found}, expected {expected}"
  | .invalidValue found expected => s!"invalid value: {describe found}, expected {expected}"
  | .missingField name => s!"missing field `{name}`"
  | .unknownKind name =>
    let names := String.intercalate ", " (kindNames.map fun k => s!"`{k}`")
    s!"unknown variant `{name}`, expected one of {names}"
  | .wrongLength length expected => s!"invalid length {length}, expected {expected}"

abbrev Decoded (α : Type) := Except DecodeError α

/-! ## Scalars -/

def decodeString : Json → Decoded String
  | .string s => .ok s
  | j => .error (.unexpected j "a string")

/-- A natural number below a limit. -/
def decodeBounded (limit : Nat) (expected : String) (j : Json) : Decoded Nat :=
  match j with
  | .number (.int i) =>
    if 0 ≤ i ∧ i < limit then .ok i.toNat else .error (.invalidValue j expected)
  | j => .error (.unexpected j expected)

def decodeUInt32 (j : Json) : Decoded UInt32 := Nat.toUInt32 <$> decodeBounded UInt32.size "u32" j

def decodeSize (j : Json) : Decoded UInt64 := Nat.toUInt64 <$> decodeBounded UInt64.size "usize" j

/-- A part that may be absent or null. -/
def decodeOptional {α : Type} (decode : Json → Decoded α) : Option Json → Decoded (Option α)
  | none => .ok none
  | some .null => .ok none
  | some j => some <$> decode j

/-- The length of a list of parts is wrong: there are more than the type has. -/
def tooLong (length expected : Nat) : DecodeError :=
  .wrongLength length (if expected = 1 then "1 element in sequence"
    else s!"{expected} elements in sequence")

/-- A part of an object that must be there. -/
def required {α : Type} (name : String) : Option α → Decoded α
  | some a => .ok a
  | none => .error (.missingField name)

/-! ## Places -/

def decodeLocation (j : Json) : Decoded Location :=
  let wrong (n : Nat) : DecodeError := .wrongLength n "struct SourceLocation with 3 elements"
  match j with
  | .object members => do
    let column ← (Assoc.find? "column" members).mapM decodeUInt32
    let file ← (Assoc.find? "file" members).mapM decodeString
    let line ← (Assoc.find? "line" members).mapM decodeUInt32
    return ⟨← required "file" file, ← required "line" line, ← required "column" column⟩
  | .array [] => .error (wrong 0)
  | .array [file] => do
    let _ ← decodeString file
    .error (wrong 1)
  | .array [file, line] => do
    let _ ← decodeString file
    let _ ← decodeUInt32 line
    .error (wrong 2)
  | .array (file :: line :: column :: rest) => do
    let l : Location := ⟨← decodeString file, ← decodeUInt32 line, ← decodeUInt32 column⟩
    if rest.isEmpty then return l else .error (tooLong (rest.length + 3) 3)
  | j => .error (.unexpected j "struct SourceLocation")

/-! ## Kinds -/

/-- The kind that a tree names; inside another type it may be a number. -/
def decodeKind (nested : Bool) : Json → Decoded String
  | .string name => if kindNames.contains name then .ok name else .error (.unknownKind name)
  | .number (.int i) =>
    if nested ∧ 0 ≤ i then
      match kindNames[i.toNat]? with
      | some name => .ok name
      | none => .error (.invalidValue (.int i) "variant index 0 <= i < 10")
    else .error (.unexpected (.int i) "variant identifier")
  | j => .error (.unexpected j "variant identifier")

/-- The type of a kind without parts. -/
def ofSimpleKind : String → ValueType
  | "void" => .void
  | "boolean" => .boolean
  | "int" => .int
  | "float" => .float
  | "string" => .string
  | _ => .any

/-- The one name that a record or handle consists of. -/
def decodeNameItems (variant : String) : List Json → Decoded String
  | [] => .error (.wrongLength 0 s!"struct variant Type::{variant} with 1 element")
  | [name] => decodeString name
  | name :: rest => do
    let _ ← decodeString name
    .error (tooLong (rest.length + 1) 1)

def decodeNameMember (field : String) (members : List (String × Json)) : Decoded String := do
  required field (← (Assoc.find? field members).mapM decodeString)

mutual

/-- The type of a tree. -/
def decodeAt (nested : Bool) : Json → Decoded ValueType
  | .object members =>
    match Assoc.find? "kind" members with
    | none => .error (.missingField "kind")
    | some tag => do
      let kind ← decodeKind nested tag
      match kind with
      | "record" => .record <$> decodeNameMember "name" members
      | "handle" => .handle <$> decodeNameMember "target_type" members
      | "aggregate" => do
        let data ← decodePart "data" members
        let definition ← decodeOptional decodeLocation (Assoc.find? "definition" members)
        let index ← decodePart "index" members
        let location ← decodeOptional decodeLocation (Assoc.find? "location" members)
        let size ← decodeOptional decodeSize (Assoc.find? "size" members)
        let index ← required "index" index
        return .aggregate index (← required "data" data) size ⟨location, definition⟩
      | "plural" => do
        let definition ← decodeOptional decodeLocation (Assoc.find? "definition" members)
        let element ← decodePart "element" members
        let location ← decodeOptional decodeLocation (Assoc.find? "location" members)
        return .plural (← required "element" element) ⟨location, definition⟩
      | kind => return ofSimpleKind kind
  | .array [] => .error (.missingField "kind")
  | .array (tag :: items) => do
    let kind ← decodeKind nested tag
    match kind with
    | "record" => .record <$> decodeNameItems "Record" items
    | "handle" => .handle <$> decodeNameItems "Handle" items
    | "aggregate" => decodeAggregateItems items
    | "plural" => decodePluralItems items
    | kind =>
      if items.isEmpty then return ofSimpleKind kind else .error (tooLong items.length 0)
  | j => .error (.unexpected j "internally tagged enum Type")

/-- The type under a member's name, if there is such a member. -/
def decodePart (name : String) : List (String × Json) → Decoded (Option ValueType)
  | [] => .ok none
  | (k, j) :: rest => if k = name then some <$> decodeAt true j else decodePart name rest

/-- An aggregate from its parts in order; those behind the data may be left out. -/
def decodeAggregateItems : List Json → Decoded ValueType
  | [] => .error (.wrongLength 0 "struct AggregateType with 5 elements")
  | [index] => do
    let _ ← decodeAt true index
    .error (.wrongLength 1 "struct AggregateType with 5 elements")
  | index :: data :: rest => do
    let index ← decodeAt true index
    let data ← decodeAt true data
    let size ← decodeOptional decodeSize rest[0]?
    let location ← decodeOptional decodeLocation rest[1]?
    let definition ← decodeOptional decodeLocation rest[2]?
    if rest.length ≤ 3 then return .aggregate index data size ⟨location, definition⟩
    else .error (tooLong (rest.length + 2) 5)

/-- A plural from its parts in order; those behind the element may be left out. -/
def decodePluralItems : List Json → Decoded ValueType
  | [] => .error (.wrongLength 0 "struct PluralValueType with 3 elements")
  | element :: rest => do
    let element ← decodeAt true element
    let location ← decodeOptional decodeLocation rest[0]?
    let definition ← decodeOptional decodeLocation rest[1]?
    if rest.length ≤ 2 then return .plural element ⟨location, definition⟩
    else .error (tooLong (rest.length + 1) 3)

end

/-- The type that a JSON tree describes. -/
def decode (j : Json) : Decoded ValueType := decodeAt false j

end ValueType

end Scripting
