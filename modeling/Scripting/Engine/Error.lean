/-
Why a script engine gives no value.
-/
import Scripting.Bridge.Basic

namespace Scripting

inductive EngineError where
  /-- A script threw, or was interrupted. -/
  | script (text : String)
  | creation (text : String)
  /-- The text of a script could not be evaluated. -/
  | evaluation (text : String)
  | functionNotFound (name : String)
  /-- A value cannot be made one of the script, or has no form outside of it. -/
  | conversion (text : String)
  /-- A value does not cross into the engine. -/
  | bridge (e : BridgeError)
  deriving DecidableEq

def EngineError.message : EngineError → String
  | .script text => s!"JavaScript error: {text}"
  | .creation text => s!"Failed to create runtime: {text}"
  | .evaluation text => s!"Failed to evaluate script: {text}"
  | .functionNotFound name => s!"Function not found: {name}"
  | .conversion text => s!"Type conversion error: {text}"
  | .bridge e => e.message

end Scripting
