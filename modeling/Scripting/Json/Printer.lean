/-
The compact text of a JSON tree: no blanks, members in ascending order of their names, and in strings
only quotes, backslashes and control characters escaped.
-/
import Scripting.Json.Basic
import Scripting.Text.Quoted

namespace Scripting.Json

/-- Numbers in JSON text: positional from `1e-5` up to `1e16`, whole doubles end in `.0`. -/
def numberLayout : Decimal.Layout := ⟨some (-5), some 16, true, true, "null", "null"⟩

/-- One character inside a string literal. -/
def escapedChar (c : Char) : String :=
  match c with
  | '"' => "\\\""
  | '\\' => "\\\\"
  | '\n' => "\\n"
  | '\r' => "\\r"
  | '\t' => "\\t"
  | c =>
    if c.toNat = 0x08 then "\\b"
    else if c.toNat = 0x0c then "\\f"
    else if c.toNat < 0x20 then "\\u" ++ Text.hexPadded 4 c.toNat
    else c.toString

/-- A string literal. -/
def stringText (s : String) : String := "\"" ++ String.join (s.toList.map escapedChar) ++ "\""

def Number.text : Number → String
  | .int i => toString i
  | .float x => numberLayout.write x

mutual

/-- The compact text of a tree. -/
def text : Json → String
  | .null => "null"
  | .bool b => if b then "true" else "false"
  | .number n => n.text
  | .string s => stringText s
  | .array items => "[" ++ itemsText items ++ "]"
  | .object members => "\x7b" ++ membersText members ++ "\x7d"

/-- Items with commas between them. -/
def itemsText : List Json → String
  | [] => ""
  | [item] => item.text
  | item :: rest => item.text ++ "," ++ itemsText rest

/-- Members with commas between them. -/
def membersText : List (String × Json) → String
  | [] => ""
  | [(name, value)] => stringText name ++ ":" ++ value.text
  | (name, value) :: rest => stringText name ++ ":" ++ value.text ++ "," ++ membersText rest

end

end Scripting.Json
