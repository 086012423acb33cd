/-
What the network client is asked and what it answers.
-/

namespace Scripting.Net

/-- Why a call over the network gives no answer. -/
inductive NetError where
  /-- A setting is missing or malformed; nothing was sent. -/
  | configuration (text : String)
  /-- The exchange itself failed. -/
  | network (text : String)
  | invalidRequest (text : String)
  /-- The script that made the call was asked to stop. -/
  | interrupted
  deriving DecidableEq, Inhabited

def NetError.message : NetError → String
  | .configuration text => s!"Configuration error: {text}"
  | .network text => s!"Network error: {text}"
  | .invalidRequest text => s!"Invalid request: {text}"
  | .interrupted => "Request interrupted"

/-- A call that a script makes: the path is below the base URL, the query is encoded already. -/
structure Call where
  method : String
  path : String
  query : Option String := none
  body : Option String := none
  /-- The most milliseconds that the whole call may take; none or zero leaves it to the settings. -/
  timeout : Option Nat := none
  deriving DecidableEq, Inhabited

/-- The answer of a call. -/
structure Response where
  code : Nat
  body : String
  deriving DecidableEq, Inhabited

def Response.isSuccess (r : Response) : Bool := 200 ≤ r.code && r.code < 300

/-- A stream that a script opens, and the channel that is told about it. -/
structure StreamCall where
  path : String
  query : Option String := none
  /-- Milliseconds between two pings. -/
  ping : Option Nat := none
  channel : String
  deriving DecidableEq, Inhabited

end Scripting.Net
