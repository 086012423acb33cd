/-
Values as text, all on one line save for strings with line breaks. A string is written literally where
that saves escapes.
-/
import Scripting.Toml.Text
import Scripting.Text.Quoted
import Scripting.Text.Blank

namespace Scripting.Toml

/-! ## Strings -/

/-- What stands on both sides of a string. -/
inductive Quotes where
  /-- One quote on either side. -/
  | single
  /-- Three quotes on either side. -/
  | triple
  /-- Three quotes on either side, and a line break behind the first three. -/
  | lines
  deriving DecidableEq

/-- The longest row of single quotes in a text. -/
def longestRow : List Char → Nat → Nat
  | [], row => row
  | '\'' :: rest, row => longestRow rest (row + 1)
  | _ :: rest, row => max row (longestRow rest 0)

/-- Whether a string is written literally: it has a quote or backslash that would have to be escaped,
nothing that has to be, and no quotes that would end it. -/
def isLiteral (cs : List Char) : Bool :=
  (cs.contains '"' || cs.contains '\\') &&
    cs.all (fun c => isTextChar c || c == '\n') && longestRow cs 0 < 3 && cs.getLast? != some '\''

/-- The quotes that suit a string. -/
def quotesFor (cs : List Char) : Quotes :=
  if cs.contains '\n' then .lines
  else if isLiteral cs && cs.contains '\'' then .triple
  else .single

/-- One character of a string that is not literal. -/
def escapedText (quotes : Quotes) (c : Char) : String :=
  match c with
  | '\t' => "\\t"
  | '\r' => "\\r"
  | '"' => "\\\""
  | '\\' => "\\\\"
  | '\n' => if quotes = .lines then "\n" else "\\n"
  | c =>
    if c.toNat = 0x08 then "\\b"
    else if c.toNat = 0x0c then "\\f"
    else if c.toNat < 0x20 || c.toNat = 0x7f then "\\u" ++ Text.upper (Text.hexPadded 4 c.toNat)
    else c.toString

/-- A literal string. -/
def literalText (quotes : Quotes) (s : String) : String :=
  match quotes with
  | .single => "'" ++ s ++ "'"
  | .triple => "'''" ++ s ++ "'''"
  | .lines => "'''\n" ++ s ++ "'''"

/-- A string with escapes. -/
def basicText (quotes : Quotes) (s : String) : String :=
  let inner := String.join (s.toList.map (escapedText quotes))
  if quotes = .lines then "\"\"\"\n" ++ inner ++ "\"\"\"" else "\"" ++ inner ++ "\""

def stringText (s : String) : String :=
  let quotes := quotesFor s.toList
  if isLiteral s.toList then literalText quotes s else basicText quotes s

/-- A key, bare where it can be. -/
def keyText (s : String) : String :=
  let cs := s.toList
  if !cs.isEmpty && cs.all isBareKeyChar then s
  else if (cs.contains '"' || cs.contains '\\') && cs.all (fun c => isTextChar c && c != '\'') then
    literalText .single s
  else basicText .single s

/-! ## Values -/

/-- A double: never an exponent, and always a point in a finite one. -/
def floatText (x : Binary64) : String :=
  if x.isNaN then "nan" else Decimal.Layout.write ⟨none, none, true, true, "nan", "inf"⟩ x

/-- Entries of a table on one line. -/
def entriesText (entries : List String) : String :=
  if entries.isEmpty then "\x7b\x7d" else "\x7b " ++ String.intercalate ", " entries ++ " \x7d"

mutual

/-- The text of a value. -/
def text : Toml → String
  | .string s => stringText s
  | .integer i => toString i.toInt
  | .float x => floatText x
  | .boolean b => if b then "true" else "false"
  | .dateTime s => s
  | .array items => Text.listing (itemTexts items)
  | .table entries => entriesText (entryTexts entries)

def itemTexts : List Toml → List String
  | [] => []
  | v :: rest => v.text :: itemTexts rest

def entryTexts : List (String × Toml) → List String
  | [] => []
  | (k, v) :: rest => (keyText k ++ " = " ++ v.text) :: entryTexts rest

end

end Scripting.Toml
