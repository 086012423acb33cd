/-
The host library: the native functions that every script has, and the records they give. A call whose
arguments are wrong fails without asking the host to post, send or open anything.
-/
import Scripting.Library.Arguments
import Scripting.Shape.Basic

namespace Scripting.Library

/-! ## Records -/

/-- The text of an option, void where there is none. -/
def optionalText : Option String → Value
  | some s => .string s
  | none => .void

/-- A message as scripts see it. -/
def messageRecord (m : Message) : Record :=
  Record.ofFields "message"
    [("timestamp", .string m.timestamp.text), ("event", .string m.event),
      ("params", optionalText m.params)]

/-- A response as scripts see it. -/
def responseRecord (r : Net.Response) : Record :=
  Record.ofFields "response" [("code", .int (Int64.ofNat r.code)), ("body", .string r.body)]

/-- The shapes of the library's records. -/
def shapes : Shapes :=
  let message := Shape.accessors { name := "message" } ["timestamp", "event", "params"]
  let response := Shape.accessors { name := "response" } ["code", "body"]
  Shapes.register (Shapes.register [] message) response

/-! ## Functions -/

/-- Goes on with an argument, or fails with what is wrong with it. -/
def withArgument {α : Type} (a : Except String α) (f : α → Routine (Except String Value)) :
    Routine (Except String Value) :=
  match a with
  | .ok a => f a
  | .error text => .done (.error text)

/-- The parameters of a message: a string is taken as it is, every other value as its text. -/
def messageParams : Value → String
  | .string s => s
  | v => v.text

/-- Posts a message on a channel. -/
def postMessage : Native := fun args =>
  withArgument (requiredString args 0 "channel") fun channel =>
  withArgument (requiredString args 1 "event") fun event => do
    Routine.demand (.post channel event ((optional args 2).map messageParams))
    return .ok .void

/-- Takes the oldest message of a channel, perhaps after a wait. -/
def pollMessage : Native := fun args =>
  withArgument (requiredString args 0 "channel") fun channel => do
    Routine.demand (.channel channel)
    withArgument (optionalMillis args 1) fun wait => do
      let m ← match wait with
        | some millis => Routine.demand (.await channel (some millis))
        | none => Routine.demand (.poll channel)
      return .ok ((m.map fun m => (messageRecord m).toValue).getD .void)

/-- Makes a request below the base URL. -/
def makeRequest : Native := fun args =>
  withArgument (requiredString args 0 "method") fun method =>
  withArgument (requiredString args 1 "path") fun path =>
  withArgument (optionalString args 2) fun query =>
  withArgument (optionalString args 3) fun body =>
  withArgument (optionalMillis args 4) fun timeout => do
    match ← Routine.demand (.request { method, path, query, body, timeout }) with
    | .ok r => return .ok (responseRecord r).toValue
    | .error e => return .error e.message

/-- Opens a stream that reports on a channel. -/
def openWebsocket : Native := fun args =>
  withArgument (requiredString args 0 "path") fun path =>
  withArgument (optionalString args 1) fun query =>
  withArgument (optionalMillis args 2) fun ping =>
  withArgument (requiredString args 3 "channel") fun channel => do
    match ← Routine.demand (.openStream { path, query, ping, channel }) with
    | .ok handle => return .ok (.int (Int64.ofNat handle.toNat))
    | .error e => return .error e.message

/-- Sends a text on a stream. -/
def sendWebsocketMessage : Native := fun args =>
  withArgument (requiredHandle args 0) fun handle =>
  withArgument (requiredString args 1 "text") fun text => do
    return .ok (.bool (← Routine.demand (.send handle text)))

/-- Closes a stream, with the code of a normal closure if none is given. -/
def closeWebsocket : Native := fun args =>
  withArgument (requiredHandle args 0) fun handle =>
  withArgument (optionalCloseCode args 1) fun code =>
  withArgument (optionalString args 2) fun reason => do
    return .ok (.bool (← Routine.demand (.close handle (code.getD 1000) (reason.getD ""))))

/-- The name of the script thread that the caller runs on. -/
def currentThread : Native := fun _ => do
  return .ok (optionalText (← Routine.demand .currentThread))

/-- The functions of the library. -/
def natives : Natives :=
  Assoc.ofList
    [("post_message", postMessage), ("poll_message", pollMessage), ("make_request", makeRequest),
      ("open_websocket", openWebsocket), ("send_websocket_message", sendWebsocketMessage),
      ("close_websocket", closeWebsocket), ("current_thread", currentThread)]

end Scripting.Library
