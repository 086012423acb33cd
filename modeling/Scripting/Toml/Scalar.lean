/-
The values of a document that are one word: numbers, truth values, dates and times. A word is read
whole or not at all.
-/
import Scripting.Toml.Basic
import Scripting.Number.Decimal
import Scripting.Number.Width

namespace Scripting.Toml

/-! ## Integers -/

/-- The value of a digit. -/
def digitValue (c : Char) : Nat :=
  if c.isDigit then c.toNat - '0'.toNat else c.toLower.toNat - 'a'.toNat + 10

/-- Digits with single underscores between them, without the underscores. -/
def digits? (isDigit : Char → Bool) : List Char → Option (List Nat)
  | [] => none
  | [c] => if isDigit c then some [digitValue c] else none
  | c :: '_' :: rest => if isDigit c then (digitValue c :: ·) <$> digits? isDigit rest else none
  | c :: rest => if isDigit c then (digitValue c :: ·) <$> digits? isDigit rest else none

/-- The number of digits in a base. -/
def ofDigits (base : Nat) (digits : List Nat) : Nat := digits.foldl (fun n d => n * base + d) 0

/-- A sign and what is behind it; none means that no sign is there. -/
def signed (cs : List Char) : Bool × List Char :=
  match cs with
  | '-' :: rest => (true, rest)
  | '+' :: rest => (false, rest)
  | _ => (false, cs)

/-- Decimal digits without needless zeros in front. -/
def decimal? (cs : List Char) : Option (List Nat) :=
  match digits? Char.isDigit cs with
  | some (0 :: _ :: _) => none
  | r => r

def isHexDigit (c : Char) : Bool :=
  c.isDigit || ('a' ≤ c && c ≤ 'f') || ('A' ≤ c && c ≤ 'F')

/-- An integer of 64 bits: decimal with a sign perhaps, or in base 16, 8 or 2. -/
def integer? (cs : List Char) : Option Int64 :=
  let i : Option Int := match cs with
    | '0' :: 'x' :: rest => (fun ds => (ofDigits 16 ds : Int)) <$> digits? isHexDigit rest
    | '0' :: 'o' :: rest =>
      (fun ds => (ofDigits 8 ds : Int)) <$> digits? (fun c => '0' ≤ c && c ≤ '7') rest
    | '0' :: 'b' :: rest =>
      (fun ds => (ofDigits 2 ds : Int)) <$> digits? (fun c => c == '0' || c == '1') rest
    | _ =>
      let (negative, rest) := signed cs
      (fun ds => if negative then -(ofDigits 10 ds : Int) else ofDigits 10 ds) <$> decimal? rest
  i >>= int64?

/-! ## Doubles -/

/-- An exponent: a sign perhaps, and digits. -/
def exponent? (cs : List Char) : Option Int :=
  let (negative, rest) := signed cs
  (fun ds => if negative then -(ofDigits 10 ds : Int) else ofDigits 10 ds) <$>
    digits? Char.isDigit rest

/-- The text before the first character of a kind, and what follows that character. -/
def cut (p : Char → Bool) (cs : List Char) : List Char × Option (List Char) :=
  match cs.span (!p ·) with
  | (before, _ :: after) => (before, some after)
  | (before, []) => (before, none)

/-- A double with a fraction, an exponent or both. Numbers that are too large are refused; below zero
they are infinite. -/
def finite? (negative : Bool) (cs : List Char) : Option Binary64 := do
  let (mantissa, power) := cut (fun c => c == 'e' || c == 'E') cs
  let (whole, fraction) := cut (· == '.') mantissa
  if power.isNone && fraction.isNone then none
  let wholeDigits ← decimal? whole
  let fractionDigits ← match fraction with
    | some ds => digits? Char.isDigit ds
    | none => some []
  let exponent ← match power with
    | some ds => exponent? ds
    | none => some 0
  let x := Decimal.toBinary64 negative
    ⟨ofDigits 10 (wholeDigits ++ fractionDigits), exponent - fractionDigits.length⟩
  if x.isInfinite && !negative then none else some x

def float? (cs : List Char) : Option Binary64 :=
  match signed cs with
  | (negative, ['i', 'n', 'f']) => some (Binary64.infinity negative)
  | (_, ['n', 'a', 'n']) => some Binary64.nan
  | (negative, rest) => finite? negative rest

/-! ## Dates and times -/

/-- A number of exactly so many digits, between two bounds. -/
def field? (width low high : Nat) (cs : List Char) : Option Nat :=
  if cs.length == width && cs.all Char.isDigit then
    (some (ofDigits 10 (cs.map digitValue))).filter fun n => low ≤ n && n ≤ high
  else none

def isLeapYear (y : Nat) : Bool := y % 4 == 0 && (y % 100 != 0 || y % 400 == 0)

def daysInMonth (y m : Nat) : Nat :=
  if m = 2 then (if isLeapYear y then 29 else 28)
  else if m = 4 ∨ m = 6 ∨ m = 9 ∨ m = 11 then 30
  else 31

/-- A date is written as it is read. -/
def date? (cs : List Char) : Option String := do
  match cs with
  | [a, b, c, d, '-', e, f, '-', g, h] =>
    let y ← field? 4 0 9999 [a, b, c, d]
    let m ← field? 2 1 12 [e, f]
    let _ ← field? 2 1 (daysInMonth y m) [g, h]
    return String.ofList cs
  | _ => none

/-- Fractions of a second to nine places, without the zeros at their end. -/
def fraction? (cs : List Char) : Option String :=
  if cs.isEmpty || !cs.all Char.isDigit then none
  else
    let kept := ((cs.take 9).reverse.dropWhile (· == '0')).reverse
    some (if kept.isEmpty then "" else "." ++ String.ofList kept)

def time? (cs : List Char) : Option String := do
  match cs with
  | a :: b :: ':' :: c :: d :: ':' :: e :: f :: rest =>
    let _ ← field? 2 0 23 [a, b]
    let _ ← field? 2 0 59 [c, d]
    let _ ← field? 2 0 60 [e, f]
    let fraction ← match rest with
      | [] => some ""
      | '.' :: ds => fraction? ds
      | _ => none
    return String.ofList (cs.take 8) ++ fraction
  | _ => none

/-- A distance from universal time. -/
def offset? (cs : List Char) : Option String := do
  match cs with
  | [sign, a, b, ':', c, d] =>
    let hours ← field? 2 0 23 [a, b]
    let minutes ← field? 2 0 59 [c, d]
    if sign == '-' && hours == 0 && minutes == 0 then return "+00:00"
    else if sign == '-' || sign == '+' then return String.ofList cs
    else none
  | _ => none

/-- A time, perhaps with its distance from universal time. -/
def offsetTime? (cs : List Char) : Option String :=
  match cs.span fun c => c != 'Z' && c != 'z' && c != '+' && c != '-' with
  | (cs, []) => time? cs
  | (cs, ['Z']) => (· ++ "Z") <$> time? cs
  | (cs, ['z']) => (· ++ "Z") <$> time? cs
  | (cs, rest) => do return (← time? cs) ++ (← offset? rest)

/-- A date, a time without offset, or a date and a time. -/
def dateTime? (cs : List Char) : Option String :=
  match date? cs, time? cs with
  | some s, _ => some s
  | none, some s => some s
  | none, none =>
    match cs.drop 10 with
    | mark :: rest =>
      if mark == 'T' || mark == 't' || mark == ' ' then do
        return (← date? (cs.take 10)) ++ "T" ++ (← offsetTime? rest)
      else none
    | [] => none

/-! ## Words -/

/-- The value of a word. -/
def ofWord? (cs : List Char) : Option Toml :=
  if cs == "true".toList then some (.boolean true)
  else if cs == "false".toList then some (.boolean false)
  else (.dateTime <$> dateTime? cs) <|> (.integer <$> integer? cs) <|> (.float <$> float? cs)

def isWordChar (c : Char) : Bool :=
  c.isAlphanum || c == '_' || c == '-' || c == '+' || c == '.' || c == ':'

/-- The word at the start of a text. A blank joins a date and a time. -/
def spanWord (cs : List Char) : List Char × List Char :=
  match cs.span isWordChar with
  | (word, ' ' :: c :: rest) =>
    if (date? word).isSome && c.isDigit then
      let (time, rest) := (c :: rest).span isWordChar
      (word ++ ' ' :: time, rest)
    else (word, ' ' :: c :: rest)
  | r => r

end Scripting.Toml
