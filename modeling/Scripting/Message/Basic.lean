/-
Messages: an event with a text of parameters, stamped with the moment it was made.
-/
import Scripting.Json.Printer
import Scripting.Json.Parser
import Scripting.Time.Timestamp

namespace Scripting

structure Message where
  timestamp : Timestamp
  event : String
  params : Option String := none
  deriving DecidableEq, Inhabited

namespace Message

/-- A message whose parameters are the text of a JSON tree. -/
def withJson (timestamp : Timestamp) (event : String) (params : Json) : Message :=
  ⟨timestamp, event, some params.text⟩

/-- The parameters as a JSON tree, where they are the text of one. -/
def paramsJson? (m : Message) : Option Json := m.params >>= Json.parse?

/-- The event and its parameters. -/
def body (m : Message) : String :=
  m.event ++ match m.params with
    | some params => " " ++ params
    | none => ""

/-- The line that shows a message. -/
def text (m : Message) : String := "[" ++ m.timestamp.text ++ "] " ++ m.body

end Message

end Scripting
