/-
What every script finds when it starts: the objects that others have for a parent, the functions of
the language, and the tables `console`, `host` and `native` of the host. The accessor `__proto__` of the
object above all others is left out, so the parent of an object never changes and a member of that name is
one like any other.
-/
import Scripting.Js.Builtin

namespace Scripting.Js.Heap

/-- Stores a function under a name that listings leave out. -/
def putBuiltin (h : Heap) (id : ObjectId) (name : String) (b : Builtin) : Heap :=
  let (f, h) := h.allocateFunction (.builtin b)
  (h.putHidden f "name" (.string name)).putHidden id name (.object f)

def putBuiltins (h : Heap) (id : ObjectId) (functions : List (String × Builtin)) : Heap :=
  functions.foldl (fun h (name, b) => h.putBuiltin id name b) h

/-- The parents of new objects. -/
def parents : Heap :=
  let h : Heap := {}
  let (object, h) := h.allocate {}
  let below (h : Heap) : ObjectId × Heap := h.allocate { parent := some object }
  let (function, h) := below h
  let (array, h) := below h
  let (string, h) := below h
  let (globals, h) := below h
  { h with realm := { globals, object, function, array, string } }

/-- Joins a function that makes objects to their parent, and makes it a global name. -/
def putConstructor (h : Heap) (name : String) (b : Builtin) (parent : ObjectId) : Heap :=
  let (f, h) := h.allocateFunction (.builtin b)
  let h := (h.putHidden f "name" (.string name)).putHidden f "prototype" (.object parent)
  (h.putHidden parent "constructor" (.object f)).putHidden h.realm.globals name (.object f)

/-- Adds a sort of errors. All sorts but the first are below the first. -/
def putErrorSort (h : Heap) (sort : ErrorSort) : Heap :=
  let above := h.realm.errorParent .error
  let (parent, h) := h.allocate { parent := some above }
  let h := { h with realm := { h.realm with errors := h.realm.errors ++ [(sort, parent)] } }
  let h := (h.putHidden parent "name" (.string sort.name)).putHidden parent "message" (.string "")
  h.putConstructor sort.name (.makeError sort) parent

/-- Makes a table of functions a global name. -/
def putTable (h : Heap) (name : String) (functions : List (String × Callable)) : Heap :=
  let (table, h) := h.allocatePlain
  let h := functions.foldl (fun h (name, c) =>
    let (f, h) := h.allocateFunction c
    h.putData table name (.object f)) h
  h.putData h.realm.globals name (.object table)

/-- A global name that stays what it is. -/
def putConstant (h : Heap) (name : String) (v : Value) : Heap :=
  h.update h.realm.globals fun o =>
    o.put { name, content := .data v, isEnumerable := false, isFixed := true }

/-- The functions of the language. -/
def withLanguage (h : Heap) : Heap :=
  let r := h.realm
  let h := h.putBuiltins r.object [("toString", .objectText), ("valueOf", .objectValue)]
  let h := h.putBuiltins r.function [("call", .functionCall), ("toString", .functionText)]
  let h := h.putBuiltins r.array
    [("push", .push), ("join", .join), ("map", .map), ("concat", .concat), ("toString", .arrayText)]
  let h := h.putBuiltins r.string [("split", .split)]
  let h := ErrorSort.all.foldl putErrorSort h
  let h := h.putBuiltin (h.realm.errorParent .error) "toString" .errorText
  let h := h.putConstructor "Object" .makeObject r.object
  let h := h.putConstructor "String" .makeString r.string
  let h := match h.ownContent? r.globals "Object" with
    | some (.data (.object f)) => h.putBuiltin f "keys" .objectKeys
    | _ => h
  let h := h.putBuiltin r.globals "parseInt" .parseInt
  let (json, h) := h.allocatePlain
  let h := (h.putBuiltin json "stringify" .jsonText).putHidden r.globals "JSON" (.object json)
  let h := h.putHidden r.globals "globalThis" (.object r.globals)
  let h := h.putConstant "undefined" .undefined
  let h := h.putConstant "NaN" (.number .nan)
  h.putConstant "Infinity" (.number (.float (Binary64.infinity false)))

/-- The heap of an engine whose scripts find these native functions. It has no accessors. -/
def initial (natives : List String) : Heap :=
  let h := parents.withLanguage
  let h := h.putTable "console" (LogCall.all.map fun c => (c.name, .builtin (.consoleLog c)))
  let h := h.putTable "host"
    ([LogCall.log, .debug, .warn, .error].map fun c => (c.name, .builtin (.hostLog c)))
  h.putTable "native" (natives.map fun name => (name, .native name))

end Scripting.Js.Heap
