/-
The events that the host logs. An event has a level, a text, and the names it is about.
-/

namespace Scripting

inductive Log.Level where
  | error | warn | info | debug
  deriving DecidableEq, Inhabited

/-- One event, with its fields in no particular order. -/
structure Log.Event where
  level : Log.Level
  text : String
  fields : List (String × String) := []
  deriving DecidableEq, Inhabited

def Log.Level.text : Log.Level → String
  | .error => "ERROR"
  | .warn => "WARN"
  | .info => "INFO"
  | .debug => "DEBUG"

namespace Log

def error (text : String) (fields : List (String × String)) : Event := ⟨.error, text, fields⟩

def warn (text : String) (fields : List (String × String)) : Event := ⟨.warn, text, fields⟩

def info (text : String) : Event := ⟨.info, text, []⟩

end Log

end Scripting
