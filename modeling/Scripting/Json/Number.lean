/-
Reading the numbers of JSON text. The digits are gathered into a 64-bit significand and a decimal
scale, and a number that is no integer is one multiplication or division of doubles away from them.
The result is the nearest double up to fifteen digits and may be a neighbour of it beyond.
-/
import Scripting.Json.Basic
import Scripting.Number.Width

namespace Scripting.Json

/-- Digits gathered so far. A `full` significand takes no more. -/
structure Gathered where
  significand : Nat
  scale : Int
  full : Bool

namespace Gathered

/-- Whether the significand has room for one more digit. -/
def fits (g : Gathered) (digit : Nat) : Bool :=
  !g.full && g.significand * 10 + digit < UInt64.size

/-- One digit before the point: one that does not fit still counts in the scale. -/
def whole (g : Gathered) (digit : Nat) : Gathered :=
  if g.fits digit then { g with significand := g.significand * 10 + digit }
  else { g with scale := g.scale + 1, full := true }

/-- One digit behind the point: one that does not fit is dropped. -/
def fractional (g : Gathered) (digit : Nat) : Gathered :=
  if g.fits digit then
    { g with significand := g.significand * 10 + digit, scale := g.scale - 1 }
  else { g with full := true }

end Gathered

/-- The double `10^n`. -/
def powerOfTen (n : Nat) : Binary64 := Decimal.toBinary64 false ⟨1, n⟩

/-- The double `significand · 10^scale`, in double arithmetic; none past the greatest double. -/
def scaled? (negative : Bool) (significand : Nat) (scale : Int) : Option Binary64 :=
  let x := Binary64.ofNat significand
  let signed (y : Binary64) := if negative then -y else y
  if x.isZero then some (signed x)
  else if 308 < scale then none
  else if 0 ≤ scale then
    let y := x * powerOfTen scale.toNat
    if y.isInfinite then none else some (signed y)
  else if -308 ≤ scale then some (signed (x / powerOfTen (-scale).toNat))
  else if -616 ≤ scale then
    some (signed (x / powerOfTen 308 / powerOfTen (-scale - 308).toNat))
  else some (signed (Binary64.zero false))

/-- The greatest exponent that counts: the greatest integer of 32 bits. -/
def greatestExponent : Nat := 0x7FFFFFFF

/-- The number of an exponent's digits; none past the greatest. -/
def exponentValue? (digits : List Nat) : Option Nat :=
  digits.foldlM
    (fun n d => if n * 10 + d ≤ greatestExponent then some (n * 10 + d) else none) 0

/-- The number of a literal without point and exponent. -/
def integer? (negative : Bool) (g : Gathered) : Option Number :=
  if g.full then Number.float <$> scaled? negative g.significand g.scale
  else if !negative then some (.int g.significand)
  else if g.significand = 0 then some (.float (Binary64.zero true))
  else
    match int64? (-(g.significand : Int)) with
    | some i => some (.int i.toInt)
    | none => some (.float (-(Binary64.ofNat g.significand)))

/-- The number of a literal with an exponent. -/
def withExponent? (negative : Bool) (g : Gathered) (negativeExponent : Bool) (digits : List Nat) :
    Option Number :=
  match exponentValue? digits with
  | none =>
    if g.significand ≠ 0 ∧ negativeExponent = false then none
    else some (.float (Binary64.zero negative))
  | some n =>
    let scale := if negativeExponent then max (g.scale - n) (-(greatestExponent + 1))
      else min (g.scale + n) greatestExponent
    Number.float <$> scaled? negative g.significand scale

/-- The leading decimal digits of a text, and the rest. -/
def spanDigits (cs : List Char) : List Nat × List Char :=
  let digits := cs.takeWhile Char.isDigit
  (digits.map (fun c => c.toNat - '0'.toNat), cs.drop digits.length)

/-- What stands behind the digits of a literal: an exponent. -/
def Number.exponent? (negative : Bool) (g : Gathered) (mark : Char) (rest : List Char) :
    Option Number :=
  if mark = 'e' ∨ mark = 'E' then
    let (down, rest) := match rest with
      | '+' :: rest => (false, rest)
      | '-' :: rest => (true, rest)
      | _ => (false, rest)
    match spanDigits rest with
    | ([], _) => none
    | (digits, []) => withExponent? negative g down digits
    | _ => none
  else none

/-- What stands behind the whole digits of a literal: nothing, a fraction, an exponent or both. -/
def Number.behind? (negative : Bool) (g : Gathered) : List Char → Option Number
  | [] => integer? negative g
  | '.' :: rest =>
    let (digits, cs) := spanDigits rest
    let g := digits.foldl Gathered.fractional { g with full := false }
    match digits, cs with
    | [], _ => none
    | _, [] => Number.float <$> scaled? negative g.significand g.scale
    | _, c :: rest => exponent? negative g c rest
  | c :: rest => exponent? negative g c rest

/-- A literal behind its sign: whole digits without needless zeros, and what may follow them. -/
def Number.unsigned? (negative : Bool) (cs : List Char) : Option Number :=
  let (digits, rest) := spanDigits cs
  match digits with
  | [] => none
  | 0 :: _ :: _ => none
  | _ => behind? negative (digits.foldl Gathered.whole ⟨0, 0, false⟩) rest

/-- A number literal. -/
def Number.read? : List Char → Option Number
  | '-' :: rest => unsigned? true rest
  | cs => unsigned? false cs

end Scripting.Json
