/-
Text between double quotes, as error messages and summaries of objects show it: a quote, a backslash
and the common control characters are escaped with a backslash, and every other character that cannot
be seen is shown by its code.
-/
import Scripting.Text.Hidden

namespace Scripting.Text

/-- The lower-case hexadecimal digits of a number. -/
def hex (n : Nat) : String := String.ofList (Nat.toDigits 16 n)

/-- Hexadecimal digits, padded with zeros to a width. -/
def hexPadded (width n : Nat) : String :=
  let digits := Nat.toDigits 16 n
  String.ofList (List.replicate (width - digits.length) '0' ++ digits)

/-- One character inside quotes. -/
def quotedChar (c : Char) : String :=
  match c with
  | '"' => "\\\""
  | '\\' => "\\\\"
  | '\n' => "\\n"
  | '\r' => "\\r"
  | '\t' => "\\t"
  | c =>
    if c.toNat = 0 then "\\0"
    else if c.toNat < 0x20 || (0x7f ≤ c.toNat && isHidden c) then
      "\\u" ++ "\x7b" ++ hex c.toNat ++ "\x7d"
    else c.toString

/-- A text between quotes. -/
def quoted (s : String) : String :=
  "\"" ++ String.join (s.toList.map quotedChar) ++ "\""

/-- Items between brackets, with commas between them. -/
def listing (items : List String) : String := "[" ++ String.intercalate ", " items ++ "]"

/-- The one-line summary of an object: its kind, then its parts by name. -/
def summary (kind : String) (parts : List (String × String)) : String :=
  kind ++ " \x7b " ++ String.intercalate ", " (parts.map fun p => p.1 ++ ": " ++ p.2) ++ " \x7d"

end Scripting.Text
