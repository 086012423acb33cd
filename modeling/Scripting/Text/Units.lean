/-
Code units of 16 bits: a character up to 16 bits is one unit, any other is two halves. A half that
stands alone is no character.
-/

namespace Scripting.Text

/-- The units of a code point. -/
def unitsOfCode (n : Nat) : List Nat :=
  if n < 0x10000 then [n] else [0xD800 + (n - 0x10000) / 0x400, 0xDC00 + (n - 0x10000) % 0x400]

def units (s : String) : List Nat := s.toList.flatMap fun c => unitsOfCode c.toNat

def isFirstHalf (n : Nat) : Bool := 0xD800 ≤ n && n < 0xDC00

def isSecondHalf (n : Nat) : Bool := 0xDC00 ≤ n && n < 0xE000

/-- The character of two halves. -/
def joined (first second : Nat) : Char :=
  Char.ofNat (0x10000 + (first - 0xD800) * 0x400 + (second - 0xDC00))

/-- A unit on its own: a character, or half of one. -/
def ofUnit (n : Nat) : Except Nat Char :=
  if isFirstHalf n || isSecondHalf n then .error n else .ok (Char.ofNat n)

/-- The characters of a list of units, and the halves that stand alone among them. -/
def decoded : List Nat → List (Except Nat Char)
  | [] => []
  | [n] => [ofUnit n]
  | n :: m :: rest =>
    if isFirstHalf n && isSecondHalf m then .ok (joined n m) :: decoded rest
    else ofUnit n :: decoded (m :: rest)

/-- The text of a list of units in which no half stands alone. -/
def ofUnits? (units : List Nat) : Option String :=
  ((decoded units).mapM Except.toOption).map String.ofList

/-! ## Units of no text -/

/-- A list of units in which half of a character stands alone. -/
structure Broken where
  units : List Nat
  isBroken : ofUnits? units = none
  deriving DecidableEq

/-- The text of a list of units, or the list where it is that of no text. -/
def ofUnits (units : List Nat) : Except Broken String :=
  match h : ofUnits? units with
  | some s => .ok s
  | none => .error ⟨units, h⟩

namespace Broken

/-- The text with another character for every half that stands alone. -/
def replaced (b : Broken) : String :=
  String.ofList ((decoded b.units).map fun c => c.toOption.getD '\ufffd')

/-- The number of bytes in front of the first half that stands alone. -/
def wholeBytes (b : Broken) : Nat :=
  let whole := ((decoded b.units).map Except.toOption).takeWhile Option.isSome
  whole.foldl (fun n c => n + (c.map Char.utf8Size).getD 0) 0

/-- What says that the units are those of no text. -/
def message (b : Broken) : String :=
  s!"Conversion from string failed: invalid utf-8 sequence of 1 bytes from index {b.wholeBytes}"

end Broken

end Scripting.Text
