/-
Blank characters, by the property White_Space of Unicode, and texts without the blanks at their ends.
-/

namespace Scripting.Text

/-- Whether a character is blank. -/
def isBlank (c : Char) : Bool :=
  let n := c.toNat
  (0x09 ≤ n && n ≤ 0x0d) || n == 0x20 || n == 0x85 || n == 0xa0 || n == 0x1680 ||
    (0x2000 ≤ n && n ≤ 0x200a) || n == 0x2028 || n == 0x2029 || n == 0x202f || n == 0x205f ||
    n == 0x3000

/-- A list without the items at both ends that satisfy a test. -/
def trimBy {α : Type} (p : α → Bool) (l : List α) : List α :=
  ((l.dropWhile p).reverse.dropWhile p).reverse

/-- A text without the blanks at both ends. -/
def trim (s : String) : String := String.ofList (trimBy isBlank s.toList)

/-- Whether a text has no other characters than blanks. -/
def isAllBlank (s : String) : Bool := s.toList.all isBlank

/-- A text with the letters from a to z as capitals. -/
def upper (s : String) : String := String.ofList (s.toList.map Char.toUpper)

/-- A text with the letters from A to Z as small ones. -/
def lower (s : String) : String := String.ofList (s.toList.map Char.toLower)

end Scripting.Text
