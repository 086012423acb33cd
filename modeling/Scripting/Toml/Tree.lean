/-
A document as it grows. A table remembers how it came about, as that decides who may still add to it:
a header may open a table that was so far only implied by longer headers, a dotted key may add to
tables that dotted keys made, and nobody may add to a value.
-/
import Scripting.Toml.Basic

namespace Scripting.Toml

/-- How a table came about. -/
inductive Origin where
  /-- By a header of its own, as the document, or as an element of an array of tables. -/
  | header
  /-- As a part of a longer header. -/
  | implied
  /-- As a part of a dotted key. -/
  | dotted
  deriving DecidableEq, Inhabited

inductive Node where
  | value (v : Toml)
  | table (origin : Origin) (entries : List (String × Node))
  /-- An array of tables, the last one first. -/
  | tables (elements : List (List (String × Node)))
  deriving Inhabited

namespace Node

/-- A table that is empty still. -/
def empty : Node := .table .header []

/-- Changes the table at the end of a path; tables on the way that are missing are made. An array of
tables stands for its last element. -/
def at? (dotted : Bool) (change : Node → Option Node) : List String → Node → Option Node
  | [], node => change node
  | key :: path, .table origin entries => do
    let put (child : Node) : Node := .table origin (Assoc.insert key child entries)
    match Assoc.find? key entries with
    | none => put <$> at? dotted change path (.table (if dotted then .dotted else .implied) [])
    | some (.value _) => none
    | some (.tables []) => none
    | some (.tables (last :: older)) =>
      match ← at? dotted change path (.table .header last) with
      | .table _ last => return put (.tables (last :: older))
      | _ => none
    | some (.table origin' entries') =>
      if dotted && origin' == .header then none
      else put <$> at? dotted change path (.table origin' entries')
  | _, _ => none

/-- Puts a value under a new key of a table. Under a dotted key the table has to be one that dotted
keys made, and under a plain key it must not. -/
def put? (path : List String) (key : String) (v : Toml) : Node → Option Node :=
  at? true (fun
    | .table origin entries =>
      if (origin == .dotted) == path.isEmpty || Assoc.contains key entries then none
      else some (.table origin (Assoc.insert key (.value v) entries))
    | _ => none) path

/-- Opens the table of a header. -/
def openTable? (path : List String) (key : String) : Node → Option Node :=
  at? false (fun
    | .table origin entries =>
      let opened (inner : List (String × Node)) : Option Node :=
        some (.table origin (Assoc.insert key (.table .header inner) entries))
      match Assoc.find? key entries with
      | none => opened []
      | some (.table .implied inner) => opened inner
      | _ => none
    | _ => none) path

/-- Appends an element to the array of tables of a header. -/
def openElement? (path : List String) (key : String) : Node → Option Node :=
  at? false (fun
    | .table origin entries =>
      let opened (elements : List (List (String × Node))) : Option Node :=
        some (.table origin (Assoc.insert key (.tables ([] :: elements)) entries))
      match Assoc.find? key entries with
      | none => opened []
      | some (.tables elements) => opened elements
      | _ => none
    | _ => none) path

mutual

/-- The value of a finished node. -/
def toToml : Node → Toml
  | .value v => v
  | .table _ entries => .table (entriesToToml entries)
  | .tables elements => .array (elementsToToml elements).reverse

def entriesToToml : List (String × Node) → List (String × Toml)
  | [] => []
  | (k, node) :: rest => (k, node.toToml) :: entriesToToml rest

def elementsToToml : List (List (String × Node)) → List Toml
  | [] => []
  | entries :: rest => .table (entriesToToml entries) :: elementsToToml rest

end

end Node

end Scripting.Toml
