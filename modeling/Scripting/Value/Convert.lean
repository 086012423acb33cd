/-
Native scalars from values. An integer is also read from a double without a fractional part; one past
the 64-bit range becomes the nearest end of that range.
-/
import Scripting.Number.Width
import Scripting.Value.Aggregate

namespace Scripting.Value

/-- Why a value is no scalar of the sort that was asked for. -/
inductive ConversionError where
  | typeMismatch (expected actual : String)
  | integerOverflow

def ConversionError.message : ConversionError → String
  | .typeMismatch expected actual => s!"Expected {expected}, got {actual}"
  | .integerOverflow => "Integer overflow"

def asBool : Value → Option Bool
  | .bool b => some b
  | _ => none

/-- The integer of a value: of a whole double the nearest that has 64 bits. -/
def asInt64 : Value → Option Int64
  | .int i => some i
  | .float x => if x.isWhole then some (Int64.ofIntClamp x.truncate) else none
  | _ => none

/-- The double of a number. -/
def asBinary64 : Value → Option Binary64
  | .float x => some x
  | .int i => some (Binary64.ofInt i.toInt)
  | _ => none

def asString : Value → Option String
  | .string s => some s
  | _ => none

def orMismatch {α : Type} (expected : String) (v : Value) : Option α → Except ConversionError α
  | some a => .ok a
  | none => .error (.typeMismatch expected v.sortName)

def toBool (v : Value) : Except ConversionError Bool := orMismatch "boolean" v v.asBool

def toInt64 (v : Value) : Except ConversionError Int64 := orMismatch "int" v v.asInt64

def toInt32 (v : Value) : Except ConversionError Int32 := do
  match int32? (← v.toInt64).toInt with
  | some i => return i
  | none => .error .integerOverflow

def toUInt32 (v : Value) : Except ConversionError UInt32 := do
  match (← v.toInt64).toInt with
  | .ofNat n => if n < UInt32.size then return n.toUInt32 else .error .integerOverflow
  | .negSucc _ => .error .integerOverflow

def toBinary64 (v : Value) : Except ConversionError Binary64 := orMismatch "float" v v.asBinary64

def toText (v : Value) : Except ConversionError String := orMismatch "string" v v.asString

def toRecord (v : Value) : Except ConversionError Record := orMismatch "record" v v.record?

end Scripting.Value
