/-
Decimal text of double-precision numbers. Writing takes the fewest digits that read back: on each
grid of one, two, … significant digits the two neighbours of the number are tried against the
interval of reals that round to it, and the first grid with a hit wins. A layout then says where the
point and the exponent go. Reading rounds the exact decimal once.
-/
import Scripting.Number.Binary64

namespace Scripting

/-- The magnitude `digits · 10^scale`. -/
structure Decimal where
  digits : Nat
  scale : Int
  deriving DecidableEq, Inhabited

namespace Decimal

/-- A power of ten. -/
def tenTo (n : Nat) : Nat := Nat.pow 10 n

/-- Drops trailing zeros from the digits. -/
def trim (d : Decimal) : Decimal :=
  go (d.digits.log2 + 1) d
where
  go : Nat → Decimal → Decimal
    | 0, d => d
    | n + 1, d =>
      if d.digits ≠ 0 ∧ d.digits % 10 = 0 then go n ⟨d.digits / 10, d.scale + 1⟩ else d

/-- The greatest `k` with `10^k ≤ num / den`, for a positive quotient. -/
def decimalExponent (num den : Nat) : Int :=
  let start := (Binary64.binaryExponent num den * 30103) / 100000 - 1
  climb 4 start
where
  /-- Whether `10^k ≤ num / den`. -/
  below (k : Int) : Bool := den * tenTo k.toNat ≤ num * tenTo (-k).toNat
  climb : Nat → Int → Int
    | 0, k => k
    | n + 1, k => if below (k + 1) then climb n (k + 1) else k

/-! ## Shortest digits -/

/-- The reals that round to a number, as `low / den` to `high / den`, with the ends or without. -/
structure Interval where
  low : Nat
  high : Nat
  value : Nat
  den : Nat
  closed : Bool

/-- The interval of the reals that round to the magnitude of a finite number: half a unit to each
side, a quarter below a power of two, with its ends where the significand is even. -/
def interval (x : Binary64) : Interval :=
  let m := x.significand
  let e := x.exponent - 2
  let below := if x.fractionField = 0 ∧ 1 < x.exponentField then 1 else 2
  { low := (4 * m - below) <<< e.toNat
    high := (4 * m + 2) <<< e.toNat
    value := (4 * m) <<< e.toNat
    den := 1 <<< (-e).toNat
    closed := m % 2 == 0 }

/-- Whether `c · 10^scale` rounds to the number of the interval. -/
def Interval.holds (i : Interval) (c : Nat) (scale : Int) : Bool :=
  let c := c * tenTo scale.toNat * i.den
  let unit := tenTo (-scale).toNat
  if i.closed then i.low * unit ≤ c && c ≤ i.high * unit
  else i.low * unit < c && c < i.high * unit

/-- The neighbour of the number on the grid `10^scale` that rounds back to it; of two the nearer, on
a tie the even one. -/
def Interval.onGrid (i : Interval) (scale : Int) : Option Nat :=
  let num := i.value * tenTo (-scale).toNat
  let den := i.den * tenTo scale.toNat
  let below := num / den
  let above := below + 1
  match i.holds below scale, i.holds above scale with
  | true, true => some (Binary64.roundQuotient num den)
  | true, false => some below
  | false, true => some above
  | false, false => none

/-- The fewest digits that read back as the magnitude of a finite number other than zero. -/
def shortest (x : Binary64) : Decimal :=
  let i := interval x
  let top := decimalExponent i.value i.den
  (search i top 17 0).trim
where
  search (i : Interval) (top : Int) : Nat → Nat → Decimal
    | 0, n => ⟨i.value * tenTo ((n : Int) - top).toNat / (i.den * tenTo (top - n).toNat), top - n⟩
    | fuel + 1, n =>
      match i.onGrid (top - n) with
      | some c => ⟨c, top - n⟩
      | none => search i top fuel (n + 1)

/-! ## Layout -/

/-- How a number is laid out as text. -/
structure Layout where
  /-- Magnitudes below `10^k` for this `k` are written with an exponent. -/
  leastExponent : Option Int
  /-- Magnitudes from `10^k` on for this `k` are written with an exponent. -/
  greatestExponent : Option Int
  /-- Whether a whole number in positional notation ends in `.0`. -/
  pointZero : Bool
  /-- Whether the sign of a negative zero is written. -/
  negativeZero : Bool
  nan : String
  infinity : String

/-- The text of a magnitude in positional notation. -/
def positional (d : Decimal) (pointZero : Bool) : String :=
  let digits := toString d.digits
  if 0 ≤ d.scale then
    digits ++ String.ofList (List.replicate d.scale.toNat '0') ++ if pointZero then ".0" else ""
  else
    let places := (-d.scale).toNat
    let padded := List.replicate (places + 1 - digits.length) '0' ++ digits.toList
    let whole := padded.take (padded.length - places)
    String.ofList whole ++ "." ++ String.ofList (padded.drop whole.length)

/-- The text of a magnitude as one digit, the others behind a point, and an exponent with its
sign. -/
def scientific (d : Decimal) : String :=
  let digits := (toString d.digits).toList
  let exponent := d.scale + (digits.length : Int) - 1
  let mantissa := match digits with
    | [] => ""
    | [c] => c.toString
    | c :: rest => c.toString ++ "." ++ String.ofList rest
  mantissa ++ "e" ++ (if exponent < 0 then "-" else "+") ++ toString exponent.natAbs

/-- The exponent that a magnitude would be written with. -/
def topExponent (d : Decimal) : Int := d.scale + ((toString d.digits).length : Int) - 1

/-- The text of a number under a layout. -/
def Layout.write (l : Layout) (x : Binary64) : String :=
  if x.isNaN then l.nan
  else
    let sign := if x.signBit && (l.negativeZero || !x.isZero) then "-" else ""
    if x.isInfinite then sign ++ l.infinity
    else if x.isZero then sign ++ if l.pointZero then "0.0" else "0"
    else
      let d := shortest x
      let k := d.topExponent
      let outside := (l.leastExponent.any (k < ·)) || (l.greatestExponent.any (· ≤ k))
      sign ++ if outside then d.scientific else d.positional l.pointZero

/-- Plain text: never an exponent, and no point on a whole number. -/
def plain : Layout := ⟨none, none, false, true, "NaN", "inf"⟩

/-! ## Reading -/

/-- The number nearest to `± digits · 10^scale`. A scale far outside the range of the numbers is
settled without the power. -/
def toBinary64 (negative : Bool) (d : Decimal) : Binary64 :=
  let size := d.scale + ((d.digits.log2 : Int) * 30103) / 100000
  if d.digits = 0 then Binary64.zero negative
  else if 310 < size then Binary64.infinity negative
  else if size < -330 then Binary64.zero negative
  else Binary64.ofQuotient negative (d.digits * tenTo d.scale.toNat) (tenTo (-d.scale).toNat)

end Decimal

end Scripting
