/-
The declared types of script values. Two types are equal when they agree in everything but the places
where they were written; a reference to a type remembers both its own place and the place of the
declaration.
-/

namespace Scripting

/-- A place in a script's text. -/
structure Location where
  file : String
  line : UInt32
  column : UInt32
  deriving DecidableEq, Inhabited

def Location.text (l : Location) : String := s!"{l.file}:{l.line}:{l.column}"

/-- Where a type was used, and where it was declared when that is known apart. -/
structure Provenance where
  location : Option Location := none
  definition : Option Location := none
  deriving DecidableEq, Inhabited

namespace Provenance

/-- The place of the declaration. -/
def origin (p : Provenance) : Option Location := p.definition <|> p.location

/-- The provenance of a reference at a place: it keeps the place of the declaration. -/
def referenced (p : Provenance) (l : Location) : Provenance := ⟨some l, p.origin⟩

def located (p : Provenance) (l : Location) : Provenance := { p with location := some l }

end Provenance

/-- The declared type of a value. -/
inductive ValueType where
  | void
  | boolean
  | int
  | float
  | string
  /-- A record with named fields. -/
  | record (name : String)
  /-- A list or map from `index` to `data`, of a fixed size if one is given. -/
  | aggregate (index data : ValueType) (size : Option UInt64) (place : Provenance)
  /-- A fixed snapshot of elements of one type. -/
  | plural (element : ValueType) (place : Provenance)
  /-- A host object that scripts cannot look into. -/
  | handle (target : String)
  /-- Accepts every value. -/
  | any
  deriving Inhabited

/-- Why a type or an aggregate refuses a change. -/
inductive TypeError where
  | immutableType (typeName : String)
  | outOfBounds (typeName : String) (index : Int64)
  | mismatch (expected actual : String)
  deriving DecidableEq

def TypeError.message : TypeError → String
  | .immutableType typeName => s!"Cannot modify constant type {typeName}"
  | .outOfBounds typeName index => s!"Index {index.toInt} out of bounds for {typeName}"
  | .mismatch expected actual => s!"Expected {expected}, got {actual}"

namespace ValueType

/-- The name of a type as scripts write it. -/
def text : ValueType → String
  | .void => "void"
  | .boolean => "boolean"
  | .int => "int"
  | .float => "float"
  | .string => "string"
  | .record name => name
  | .aggregate index data size _ =>
    match size with
    | some n => data.text ++ "[" ++ toString n ++ "]"
    | none => data.text ++ "[" ++ index.text ++ "]"
  | .plural element _ => element.text ++ "[]"
  | .handle target => "handle<" ++ target ++ ">"
  | .any => "any"

/-- Equality of types; places take no part. -/
def same : ValueType → ValueType → Bool
  | .void, .void => true
  | .boolean, .boolean => true
  | .int, .int => true
  | .float, .float => true
  | .string, .string => true
  | .record a, .record b => a == b
  | .aggregate i d n _, .aggregate i' d' n' _ => same i i' && same d d' && n == n'
  | .plural e _, .plural e' _ => same e e'
  | .handle a, .handle b => a == b
  | .any, .any => true
  | _, _ => false

/-- Whether a value of one type may stand where the other is expected. -/
def accepts : ValueType → ValueType → Bool
  | .any, _ => true
  | _, .any => true
  | a, b => same a b

def isPlural : ValueType → Bool
  | .plural .. => true
  | _ => false

/-! ## Builders -/

def map (index data : ValueType) : ValueType := .aggregate index data none {}

def list (data : ValueType) : ValueType := map .int data

def array (data : ValueType) (size : UInt64) : ValueType := .aggregate .int data (some size) {}

def pluralOf (element : ValueType) : ValueType := .plural element {}

/-! ## Places and sizes -/

/-- A use of the type at a place. Only aggregates and plurals have places. -/
def reference (t : ValueType) (l : Location) : ValueType :=
  match t with
  | .aggregate index data size place => .aggregate index data size (place.referenced l)
  | .plural element place => .plural element (place.referenced l)
  | t => t

def withLocation (t : ValueType) (l : Location) : ValueType :=
  match t with
  | .aggregate index data size place => .aggregate index data size (place.located l)
  | .plural element place => .plural element (place.located l)
  | t => t

def provenance : ValueType → Provenance
  | .aggregate _ _ _ place => place
  | .plural _ place => place
  | _ => {}

def location (t : ValueType) : Option Location := t.provenance.location

/-- The place of the declaration that every reference points back to. -/
def definitionLocation (t : ValueType) : Option Location := t.provenance.origin

/-- Gives an aggregate a size; every other type refuses. -/
def setSize (t : ValueType) (n : UInt64) : Except TypeError ValueType :=
  match t with
  | .aggregate index data _ place => .ok (.aggregate index data (some n) place)
  | t => .error (.immutableType t.text)

end ValueType

/-- The type of an aggregate value. -/
structure AggregateType where
  index : ValueType
  data : ValueType
  size : Option UInt64 := none
  place : Provenance := {}
  deriving Inhabited

namespace AggregateType

def toType (t : AggregateType) : ValueType := .aggregate t.index t.data t.size t.place

def text (t : AggregateType) : String := t.toType.text

/-- Aggregates that are indexed by integers keep their elements in order. -/
def isOrdered (t : AggregateType) : Bool :=
  match t.index with
  | .int => true
  | _ => false

def list (data : ValueType) : AggregateType := { index := .int, data }

def map (index data : ValueType) : AggregateType := { index, data }

end AggregateType

def ValueType.aggregate? : ValueType → Option AggregateType
  | .aggregate index data size place => some { index, data, size, place }
  | _ => none

/-- The type of a plural value. -/
structure PluralType where
  element : ValueType
  place : Provenance := {}
  deriving Inhabited

namespace PluralType

def toType (t : PluralType) : ValueType := .plural t.element t.place

def text (t : PluralType) : String := t.toType.text

/-- The marker that every plural type is indexed by: membership reads like a look-up of a flag. -/
def indexType (_ : PluralType) : ValueType := .boolean

end PluralType

end Scripting
