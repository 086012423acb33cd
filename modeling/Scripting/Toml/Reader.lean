/-
Reading a document: lines that put a value under a key or open a table.
-/
import Scripting.Toml.Text
import Scripting.Toml.Tree

namespace Scripting.Toml

/-! ## Values -/

/-- The items of an array up to its bracket. -/
def arrayItems (item : List Char → Option (Toml × List Char)) (read : List Toml) : Nat → List Char → Option (List Toml × List Char)
  | 0, _ => none
  | n + 1, cs =>
    match skipLines false cs with
    | ']' :: rest => some (read.reverse, rest)
    | cs => do
      let (v, cs) ← item cs
      match skipLines false cs with
      | ',' :: rest => arrayItems item (v :: read) n rest
      | ']' :: rest => some ((v :: read).reverse, rest)
      | _ => none

/-- A key and its value. -/
def keyValue (item : List Char → Option (Toml × List Char)) (cs : List Char) : Option ((List String × Toml) × List Char) := do
  let (path, cs) ← key cs
  match cs with
  | '=' :: rest => do
    let (v, rest) ← item (skipSpaces rest)
    return ((path, v), rest)
  | _ => none

/-- The entries of a table on one line, up to its brace. -/
def inlineEntries (item : List Char → Option (Toml × List Char)) (table : Node) : Nat → List Char → Option (Node × List Char)
  | 0, _ => none
  | n + 1, cs => do
    let ((path, v), cs) ← keyValue item cs
    let table ← table.put? path.dropLast (path.getLastD "") v
    match skipSpaces cs with
    | ',' :: rest => inlineEntries item table n rest
    | '\x7d' :: rest => some (table, rest)
    | _ => none

/-- A value of at most so many levels of arrays and tables. -/
def valueWithin : Nat → List Char → Option (Toml × List Char)
  | n, cs =>
    match cs with
    | '"' :: _ => (fun (s, rest) => (.string s, rest)) <$> quotedString cs
    | '\'' :: _ => (fun (s, rest) => (.string s, rest)) <$> quotedString cs
    | '[' :: rest =>
      match n with
      | 0 => none
      | n + 1 => do
        let (items, rest) ← arrayItems (valueWithin n) [] (rest.length + 1) rest
        return (.array items, rest)
    | '\x7b' :: rest =>
      match n with
      | 0 => none
      | n + 1 =>
        match skipSpaces rest with
        | '\x7d' :: rest => some (.table [], rest)
        | rest => do
          let (node, rest) ← inlineEntries (valueWithin n) Node.empty (rest.length + 1) rest
          return (node.toToml, rest)
    | _ =>
      let (word, rest) := spanWord cs
      (·, rest) <$> ofWord? word

def value (cs : List Char) : Option (Toml × List Char) := valueWithin depthLimit cs

/-! ## Documents -/

/-- A document as far as it is read: its root, and the table that plain lines add to. -/
structure Draft where
  root : Node := Node.empty
  current : List String := []

/-- The path of a header between brackets. -/
def header (brackets : List Char) (cs : List Char) : Option (List String × List Char) := do
  let (path, cs) ← key cs
  if brackets.isPrefixOf cs then return (path, cs.drop brackets.length) else none

/-- One line of a document that is not empty. -/
def Draft.line (d : Draft) (cs : List Char) : Option (Draft × List Char) := do
  let (d, cs) ← match cs with
    | '[' :: '[' :: rest => do
      let (path, rest) ← header [']', ']'] rest
      let root ← d.root.openElement? path.dropLast (path.getLastD "")
      some ({ root, current := path }, rest)
    | '[' :: rest => do
      let (path, rest) ← header [']'] rest
      let root ← d.root.openTable? path.dropLast (path.getLastD "")
      some ({ root, current := path }, rest)
    | _ => do
      let ((path, v), rest) ← keyValue value cs
      let root ← d.root.at? false (Node.put? path.dropLast (path.getLastD "") v) d.current
      some ({ d with root }, rest)
  return (d, ← endLine? cs)

/-- The lines of a document. -/
def Draft.lines (d : Draft) : Nat → List Char → Option Draft
  | 0, _ => none
  | n + 1, cs =>
    match skipLines false cs with
    | [] => some d
    | cs => do
      let (d, cs) ← d.line cs
      d.lines n cs

/-- The table of a document; a mark of byte order in front of it does not count. -/
def parse? (text : String) : Option Table := do
  let cs := match text.toList with
    | '\ufeff' :: rest => rest
    | cs => cs
  let d ← ({} : Draft).lines (cs.length + 1) cs
  match d.root.toToml with
  | .table entries => some entries
  | _ => none

end Scripting.Toml
