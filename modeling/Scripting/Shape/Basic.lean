/-
Shapes: for one type of record, the methods that scripts may call on it. A call is a look-up in the
shape of the record's type, so a script can reach nothing that a shape does not name.
-/
import Scripting.Value.Basic
import Scripting.Text.Quoted

namespace Scripting

/-- What a method does with its record and the arguments; a failure is a text. -/
abbrev Handler := Record → List Value → Except String Value

/-- Why a method call gives no value. -/
inductive ShapeError where
  | unknownMethod (shape method : String)
  | shapeMismatch (expected actual : String)
  | handler (method text : String)
  deriving DecidableEq

def ShapeError.message : ShapeError → String
  | .unknownMethod shape method => s!"Record type {shape} has no method {method}"
  | .shapeMismatch expected actual => s!"Shape {expected} cannot dispatch on a {actual} record"
  | .handler method text => s!"{method}: {text}"

/-- The methods of one type of record. -/
structure Shape where
  name : String
  methods : Assoc String Handler := []

namespace Shape

/-- Adds a method, in place of the one that has its name. -/
def method (s : Shape) (name : String) (handler : Handler) : Shape :=
  { s with methods := Assoc.insert name handler s.methods }

/-- Adds a method that reads a field; a field that is not there is void. -/
def accessor (s : Shape) (name field : String) : Shape :=
  s.method name fun record _ => .ok ((record.get? field).getD .void)

def accessors (s : Shape) (fields : List String) : Shape :=
  fields.foldl (fun s field => s.accessor field field) s

/-- The shape that reads every field of a record. -/
def ofRecord (r : Record) : Shape :=
  ({ name := r.typeName } : Shape).accessors (r.fields.map Prod.fst)

def methodNames (s : Shape) : List String := Assoc.keys s.methods

def hasMethod (s : Shape) (method : String) : Bool := Assoc.contains method s.methods

/-- Calls a method on a record of the shape's type. -/
def invoke (s : Shape) (method : String) (record : Record) (args : List Value) :
    Except ShapeError Value :=
  if record.typeName = s.name then
    match Assoc.find? method s.methods with
    | some handler => (handler record args).mapError (.handler method)
    | none => .error (.unknownMethod s.name method)
  else .error (.shapeMismatch s.name record.typeName)

def summary (s : Shape) : String :=
  Text.summary "RecordShape"
    [("name", Text.quoted s.name), ("methods", Text.listing (s.methodNames.map Text.quoted))]

end Shape

/-! ## Many shapes -/

/-- The shapes that are known, by the type of their records. -/
abbrev Shapes := Assoc String Shape

namespace Shapes

/-- Makes a shape known, in place of the one for the same type. -/
def register (shapes : Shapes) (s : Shape) : Shapes := Assoc.insert s.name s shapes

def get? (shapes : Shapes) (typeName : String) : Option Shape := Assoc.find? typeName shapes

def shapeOf? (shapes : Shapes) (r : Record) : Option Shape := shapes.get? r.typeName

def names (shapes : Shapes) : List String := Assoc.keys shapes

end Shapes

end Scripting
