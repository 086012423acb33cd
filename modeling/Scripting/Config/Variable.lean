/-
What an environment variable says. Its text is a truth value, a number, a quoted string, a character, a
list in brackets or a table in braces; every other text stands for itself.
-/
import Scripting.Config.Datum
import Scripting.Toml.Text
import Scripting.Net.Preferences

namespace Scripting.Config

/-! ## Texts of variables -/

def isSpace (c : Char) : Bool := c == ' ' || c == '\t' || c == '\n' || c == '\x0c' || c == '\r'

def skipSpaces (cs : List Char) : List Char := cs.dropWhile isSpace

/-- Whether a character ends a plain word. -/
def isSeparator (c : Char) : Bool := [',', '\x7b', '\x7d', '[', ']'].contains c

/-- Decimal digits, with a point between or beside them. -/
def mantissa? (cs : List Char) : Option (List Char × Int) :=
  let (whole, rest) := cs.span Char.isDigit
  match rest with
  | '.' :: fraction =>
    if fraction.all Char.isDigit && !(whole.isEmpty && fraction.isEmpty) then
      some (whole ++ fraction, -(fraction.length : Int))
    else none
  | _ => none

/-- A double with a point. -/
def float? (cs : List Char) : Option Binary64 := do
  let (negative, rest) := Toml.signed cs
  let (mantissa, power) := Toml.cut (fun c => c == 'e' || c == 'E') rest
  let (digits, scale) ← mantissa? mantissa
  let exponent ← match power with
    | some ds =>
      let (down, ds) := Toml.signed ds
      if ds.isEmpty || !ds.all Char.isDigit then none
      else
        let n : Int := Toml.ofDigits 10 (ds.map Toml.digitValue)
        some (if down then -n else n)
    | none => some 0
  return Decimal.toBinary64 negative ⟨Toml.ofDigits 10 (digits.map Toml.digitValue), scale + exponent⟩

/-- The value of a plain word. -/
def ofWord (cs : List Char) : Scalar :=
  let s := String.ofList cs
  match float? cs, Net.readInt? s with
  | some x, _ => .float x
  | none, some i =>
    if 0 ≤ i && i < UInt64.size && !s.startsWith "-" then .unsigned i.toNat.toUInt64
    else (int64? i).elim (.string s) .signed
  | none, none => .string s

/-- The rest of a quoted string. -/
def quotedRest (read : List Char) : Nat → List Char → Option (String × List Char)
  | 0, _ => none
  | n + 1, cs =>
    match cs with
    | '"' :: rest => some (String.ofList read.reverse, rest)
    | '\\' :: rest =>
      match Toml.escape? rest with
      | some (c, rest) => quotedRest (c :: read) n rest
      | none => none
    | c :: rest => quotedRest (c :: read) n rest
    | [] => none

def quoted? : List Char → Option (String × List Char)
  | '"' :: rest => quotedRest [] (rest.length + 1) rest
  | _ => none

/-- Items with commas between them, up to a closing character. -/
def listed {α : Type} (close : Char) (item : List Char → Option (α × List Char)) (read : List α) :
    Nat → List Char → Option (List α × List Char)
  | 0, _ => none
  | n + 1, cs =>
    match cs with
    | c :: rest =>
      if c = close then some (read.reverse, rest)
      else do
        let (a, cs) ← item cs
        match cs with
        | ',' :: rest => listed close item (a :: read) n rest
        | c :: rest => if c = close then some ((a :: read).reverse, rest) else none
        | [] => none
    | [] => none

/-- An entry of a table. -/
def entry (item : List Char → Option (Datum × List Char)) (cs : List Char) :
    Option ((String × Datum) × List Char) := do
  let cs := skipSpaces cs
  let (name, cs) ← match cs with
    | '"' :: _ => quoted? cs
    | _ =>
      match cs.span Toml.isBareKeyChar with
      | ([], _) => none
      | (name, rest) => some (String.ofList name, rest)
  match skipSpaces cs with
  | '=' :: rest => do
    let (d, rest) ← item rest
    return ((name, d), rest)
  | _ => none

/-- A value at the start of a text, of at most so many levels. -/
def valueWithin : Nat → List Char → Option (Datum × List Char)
  | 0, _ => none
  | n + 1, cs => do
    let scalar (v : Scalar) (rest : List Char) : Option (Datum × List Char) :=
      some (.scalar .environment v, rest)
    let cs := skipSpaces cs
    let (d, rest) ← match cs with
      | 't' :: 'r' :: 'u' :: 'e' :: rest => scalar (.boolean true) rest
      | 'f' :: 'a' :: 'l' :: 's' :: 'e' :: rest => scalar (.boolean false) rest
      | '\x7b' :: rest => do
        let (entries, rest) ← listed '\x7d' (entry (valueWithin n)) [] (rest.length + 1) rest
        some (.table .environment (Assoc.ofList entries), rest)
      | '[' :: rest => do
        let (items, rest) ← listed ']' (valueWithin n) [] (rest.length + 1) rest
        some (.array .environment items, rest)
      | '"' :: _ => do
        let (s, rest) ← quoted? cs
        scalar (.string s) rest
      | '\'' :: c :: '\'' :: rest => scalar (.char c) rest
      | '\'' :: _ => none
      | _ =>
        let (word, rest) := cs.span (!isSeparator ·)
        scalar (ofWord (Text.trimBy Text.isBlank word)) rest
    return (d, skipSpaces rest)

/-- The value of the text of a variable. -/
def ofText (s : String) : Datum :=
  match valueWithin (s.length + 1) s.toList with
  | some (d, []) => d
  | _ => .scalar .environment (.string s)

/-! ## Names of variables -/

/-- What the names of all variables of the configuration begin with. -/
def variableStart : String := "SCRIPTHOST_"

/-- The keys that a variable stands for, in small letters; two underscores lead into a table. -/
def keysOf? (name : String) : Option (List String) :=
  let cs := (Text.lower (Text.trim name)).toList
  let start := (Text.lower variableStart).toList
  if start.isPrefixOf cs then
    let name := String.ofList (cs.drop start.length)
    let keys := ((name.splitOn "__").flatMap fun part => part.splitOn ".").takeWhile fun k => !k.isEmpty
    if keys.isEmpty then none else some keys
  else none

/-- A datum below some keys. -/
def nested (keys : List String) (d : Datum) : Datum :=
  keys.foldr (fun k d => .table .environment [(k, d)]) d

/-- The layer of the environment variables. -/
def ofVariables (environment : List (String × String)) : Datum :=
  environment.foldl (fun d v =>
    match keysOf? v.1 with
    | some keys => d.overlay (nested keys (ofText v.2))
    | none => d) (.table .environment [])

end Scripting.Config
