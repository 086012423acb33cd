/-
The wire form of what a tool asks of a host: orders, network calls, and the files that are there.
-/
import Scripting.Wire.Value
import Scripting.Host.Basic

namespace Scripting.Wire

/-- A place in a text. -/
def location (j : Json) : Read Location := do
  return ⟨← textOf j "file", (← naturalOf j "line").toUInt32, (← naturalOf j "column").toUInt32⟩

def order (j : Json) : Read Order := do
  return {
    threadName := ← textOf j "thread", sourceId := ← textOf j "source"
    functionName := (← textOf? j "function").getD "main", params := ← valuesOf j "params" }

def netCall (j : Json) : Read Net.Call := do
  return {
    method := ← textOf j "method", path := ← textOf j "path", query := ← textOf? j "query"
    body := ← textOf? j "body", timeout := ← naturalOf? j "timeout_ms" }

def streamCall (j : Json) : Read Net.StreamCall := do
  return {
    path := ← textOf j "path", query := ← textOf? j "query", ping := ← naturalOf? j "ping_ms"
    channel := ← textOf j "channel" }

/-- The files below a directory: a path leads to a text, to bytes, or to a directory. -/
def fileTree (root : String) (j : Json) : Read FileTree := do
  let entries ← (members (member j "files")).mapM fun (path, content) => do
    let place := root :: FileTree.parts path
    match content with
    | .null => return (place, FileNode.directory)
    | .string text => return (place, FileNode.file text.toUTF8)
    | j => return (place, FileNode.file (ofHexText (← textOf j "hex")))
  return { entries := ([root], .directory) :: entries }

end Scripting.Wire
