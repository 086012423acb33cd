/-
The numbers of scripts. A number is carried as an integer of 32 bits or as a double; which of the two
it is cannot be seen inside a script, but decides as what it leaves the engine. Sums, differences and
products of integers stay integers while they fit; an operation with a double gives a double.
-/
import Scripting.Number.Decimal
import Scripting.Number.Width
import Scripting.Text.Blank

namespace Scripting.Js

inductive Number where
  | int (i : Int32)
  | float (x : Binary64)
  deriving DecidableEq, Inhabited

namespace Number

/-- Whether an integer fits into 32 bits. -/
def fits (i : Int) : Bool := (int32? i).isSome

/-- The number of an integer, rounded where it is a double. -/
def ofInt (i : Int) : Number := if fits i then .int i.toInt32 else .float (Binary64.ofInt i)

/-- The number of a double: an integer where it is one that fits, other than negative zero. -/
def ofBinary64 (x : Binary64) : Number :=
  if x.isFinite && x.isWhole && fits x.truncate && !(x.isZero && x.signBit) then
    .int x.truncate.toInt32
  else .float x

def toBinary64 : Number → Binary64
  | .int i => Binary64.ofInt i.toInt
  | .float x => x

def zero : Number := .int 0

def nan : Number := .float Binary64.nan

def isZero : Number → Bool
  | .int i => i == 0
  | .float x => x.isZero

def isNaN : Number → Bool
  | .int _ => false
  | .float x => x.isNaN

/-! ## Arithmetic -/

def add : Number → Number → Number
  | .int a, .int b => ofInt (a.toInt + b.toInt)
  | a, b => .float (a.toBinary64 + b.toBinary64)

def sub : Number → Number → Number
  | .int a, .int b => ofInt (a.toInt - b.toInt)
  | a, b => .float (a.toBinary64 - b.toBinary64)

/-- A product that is zero is negative zero if one of the factors is negative. -/
def mul : Number → Number → Number
  | .int a, .int b =>
    if a.toInt * b.toInt = 0 ∧ (a < 0 ∨ b < 0) then .float (Binary64.zero true)
    else ofInt (a.toInt * b.toInt)
  | a, b => .float (a.toBinary64 * b.toBinary64)

/-- The quotient of two integers is an integer if it is whole. -/
def div : Number → Number → Number
  | .int a, .int b => ofBinary64 (Binary64.ofInt a.toInt / Binary64.ofInt b.toInt)
  | a, b => .float (a.toBinary64 / b.toBinary64)

def rem : Number → Number → Number
  | .int a, .int b => ofBinary64 (Binary64.ofInt a.toInt % Binary64.ofInt b.toInt)
  | a, b => .float (a.toBinary64 % b.toBinary64)

/-- Zero and the least integer turn into doubles. -/
def neg : Number → Number
  | .int i => if i = 0 then .float (Binary64.zero true) else ofInt (-i.toInt)
  | .float x => .float (-x)

/-! ## Text -/

/-- Numbers as text: positional from `1e-6` up to `1e21`, and no sign on zero. -/
def layout : Decimal.Layout := ⟨some (-6), some 21, false, false, "NaN", "Infinity"⟩

def text : Number → String
  | .int i => toString i.toInt
  | .float x => layout.write x

/-- The digits at the start of a text. -/
def spanDigits (cs : List Char) : List Char × List Char := cs.span Char.isDigit

def ofDigits (base : Nat) (cs : List Char) : Nat :=
  cs.foldl (fun n c =>
    n * base + (if c.isDigit then c.toNat - '0'.toNat else c.toLower.toNat - 'a'.toNat + 10)) 0

/-- An exponent at the start of a text; without digits it is none. -/
def spanExponent (cs : List Char) : Int × List Char :=
  match cs with
  | mark :: rest =>
    if mark == 'e' || mark == 'E' then
      let (negative, rest') := match rest with
        | '-' :: rest => (true, rest)
        | '+' :: rest => (false, rest)
        | _ => (false, rest)
      match spanDigits rest' with
      | ([], _) => (0, cs)
      | (digits, rest') =>
        let n : Int := ofDigits 10 digits
        (if negative then -n else n, rest')
    else (0, cs)
  | [] => (0, cs)

/-- The decimal number at the start of a text, if there is one. -/
def spanDecimal (cs : List Char) : Option (Number × List Char) :=
  let (whole, rest) := spanDigits cs
  let (fraction, rest) := match rest with
    | '.' :: rest' => spanDigits rest'
    | _ => ([], rest)
  if whole.isEmpty && fraction.isEmpty then none
  else
    let (exponent, rest) := spanExponent rest
    some (ofBinary64
      (Decimal.toBinary64 false ⟨ofDigits 10 (whole ++ fraction), exponent - fraction.length⟩), rest)

def isHexDigit (c : Char) : Bool :=
  c.isDigit || ('a' ≤ c && c ≤ 'f') || ('A' ≤ c && c ≤ 'F')

/-- A number in base 16 behind its mark. -/
def ofHex (cs : List Char) : Number := ofBinary64 (Binary64.ofNat (ofDigits 16 cs))

/-- The number that a text without blanks at its ends stands for as a whole. -/
def ofTrimmed (cs : List Char) : Number :=
  match cs with
  | [] => zero
  | '0' :: 'x' :: rest => if !rest.isEmpty && rest.all isHexDigit then ofHex rest else nan
  | '0' :: 'X' :: rest => if !rest.isEmpty && rest.all isHexDigit then ofHex rest else nan
  | '-' :: rest => neg (magnitude rest)
  | '+' :: rest => magnitude rest
  | _ => magnitude cs
where
  magnitude (cs : List Char) : Number :=
    if cs == "Infinity".toList then .float (Binary64.infinity false)
    else match spanDecimal cs with
      | some (n, []) => n
      | _ => nan

/-- The number that a text stands for; a blank one is zero. -/
def ofText (s : String) : Number := ofTrimmed (Text.trim s).toList

/-- The worth of a digit, which goes up to `z`. -/
def digit? (c : Char) : Option Nat :=
  if c.isDigit then some (c.toNat - '0'.toNat)
  else if c.isAlpha then some (c.toLower.toNat - 'a'.toNat + 10)
  else none

/-- The integer at the start of a text, in a base; without a base it is 10, or 16 behind its mark. -/
def parseInt (s : String) (base : Nat) : Number :=
  let cs := (Text.trim s).toList
  let (negative, cs) := match cs with
    | '-' :: rest => (true, rest)
    | '+' :: rest => (false, rest)
    | _ => (false, cs)
  let (base, cs) := match base, cs with
    | 0, '0' :: 'x' :: rest => (16, rest)
    | 0, '0' :: 'X' :: rest => (16, rest)
    | 16, '0' :: 'x' :: rest => (16, rest)
    | 16, '0' :: 'X' :: rest => (16, rest)
    | 0, _ => (10, cs)
    | _, _ => (base, cs)
  let digits := cs.takeWhile fun c => (digit? c).any (· < base)
  if base < 2 || 36 < base || digits.isEmpty then nan
  else
    let n := ofBinary64 (Binary64.ofNat (ofDigits base digits))
    if negative then neg n else n

end Number

end Scripting.Js
