/-
The wire form of programs.
-/
import Scripting.Wire.Value
import Scripting.Program.Basic

namespace Scripting.Wire

def instruction (j : Json) : Read Instruction := do
  match ← textOf j "i" with
  | "log" => return .log (← valueOf j "value")
  | "param" => return .param (← naturalOf j "index")
  | "params" => return .params
  | "function" => return .function
  | "thread" => return .thread
  | "os_thread" => return .systemThread
  | "current" => return .current
  | "keep" => return .keep
  | "checkpoint" => return .checkpoint
  | "stop_self" => return .stopSelf
  | "poll" => return .poll (← textOf j "channel") (← naturalOf? j "ms")
  | "wait" => return .wait (← textOf j "channel")
  | "post" => return .post (← textOf j "channel") (← textOf j "event") (← textOf? j "params")
  | "only" => return .only (← textOf j "function")
  | "fail" => return .fail (← textOf j "message")
  | "panic" =>
    if (← textOf? j "kind") = some "other" then return .panic none
    else return .panic (← textOf? j "message")
  | "return" => return .result (← valueOf j "value")
  | "compile_until_stop" => return .compileUntilStop
  | name => malformed s!"unknown instruction {name}"

/-- The program of a text; null is none. -/
def program? (s : String) : Option Program := do
  match ← Json.parse? s with
  | .array l => (l.mapM instruction).toOption
  | _ => none

end Scripting.Wire
