/-
The wire form of what a host reports: trees that cross the bridge, messages, sources, executions and
events.
-/
import Scripting.Wire.Value
import Scripting.Bridge.Basic
import Scripting.Host.Basic

namespace Scripting.Wire

def orNull {α : Type} (form : α → Json) : Option α → Json
  | some a => form a
  | none => .null

def ofText? : Option String → Json := orNull .string

def ofTexts (l : List String) : Json := .array (l.map .string)

def ofNatural (n : Nat) : Json := .int n

/-! ## Shapes and the bridge -/

def ofShape (s : Shape) : Json :=
  Json.ofMembers [("name", .string s.name), ("methods", ofTexts s.methodNames),
    ("debug", .string s.summary)]

/-- A tree of at most so many levels. -/
def exportedWithin : Nat → Json → Read Exported
  | 0, _ => malformed "too deep"
  | n + 1, j => do
    match members j with
    | [("prim", v)] => return .scalar (← value v)
    | [("array", l)] => return .array (← (← items l).mapM (exportedWithin n))
    | [("object", l)] =>
      return .object (← (← items l).mapM fun p => do
        let (name, e) ← pair p
        return (← text name, ← exportedWithin n e))
    | [("wrapped", r)] => return .wrapped (← record r)
    | [("opaque", t)] => return .sealed (← text t)
    | _ => malformed "no tree"

def exported (j : Json) : Read Exported := exportedWithin (levels j) j

mutual

def ofExported : Exported → Json
  | .scalar v => Json.ofMembers [("prim", ofValue v)]
  | .array items => Json.ofMembers [("array", .array (ofExportedItems items))]
  | .object members => Json.ofMembers [("object", .array (ofExportedMembers members))]
  | .wrapped r => Json.ofMembers [("wrapped", ofRecord r)]
  | .sealed t => Json.ofMembers [("opaque", .string t)]

def ofExportedItems : List Exported → List Json
  | [] => []
  | e :: rest => ofExported e :: ofExportedItems rest

def ofExportedMembers : List (String × Exported) → List Json
  | [] => []
  | (n, e) :: rest => .array [.string n, ofExported e] :: ofExportedMembers rest

end

/-! ## Messages and events -/

def ofMessage (m : Message) : Json :=
  Json.ofMembers [("event", .string m.event), ("params", ofText? m.params)]

/-- A message: its parameters are a text, or a tree whose text they are. -/
def message (j : Json) : Read Message := do
  let event ← textOf j "event"
  match j.member? "json" with
  | some tree => return Message.withJson ⟨0⟩ event tree
  | none => return ⟨⟨0⟩, event, ← textOf? j "params"⟩

def ofEvent (e : Log.Event) : Json :=
  .array [.string e.level.text, .string e.text,
    Json.ofMembers (e.fields.map fun f => (f.1, .string f.2))]

/-! ## Sources and executions -/

def ofSource (s : Source) : Json :=
  Json.ofMembers [("id", .string s.id), ("path", ofText? s.path), ("text", .string s.text),
    ("display", .string s.displayName)]

def ofExecution (h : Host) (e : Execution) : Json :=
  Json.ofMembers [("thread", .string e.threadName), ("source", .string e.sourceId),
    ("function", .string e.functionName), ("params", .array (ofItems e.params)),
    ("state", .string e.state.text), ("running", .bool e.isRunning),
    ("value", orNull ofValue e.outcome.value), ("failure", ofText? e.outcome.failure),
    ("keep", .bool (h.keepsRunning e)), ("stop_token", .bool (h.isStopped e.token))]

def ofStates (l : List (String × ExecutionState)) : Json :=
  .array (l.map fun (name, s) => .array [.string name, .string s.text])

end Scripting.Wire
