/-
Double-precision numbers, carried by their bits. A finite number is read as `± m · 2^e` with a
natural `m`; every operation computes the exact result on that form and rounds once, to the nearest
number and on a tie to the even one, so the arithmetic is a function of natural numbers alone.
-/

namespace Scripting

/-- A double-precision number, told apart by its bits. -/
structure Binary64 where
  bits : UInt64
  deriving DecidableEq, Inhabited, Hashable

namespace Binary64

/-! ## Fields -/

/-- Whether the sign bit is set; it is on negative zero and may be on a NaN. -/
def signBit (x : Binary64) : Bool := x.bits >>> 63 != 0

def exponentField (x : Binary64) : Nat := ((x.bits >>> 52) &&& 0x7FF).toNat

def fractionField (x : Binary64) : Nat := (x.bits &&& 0xFFFFFFFFFFFFF).toNat

def ofFields (negative : Bool) (exponent fraction : Nat) : Binary64 :=
  ⟨((if negative then 1 else 0 : UInt64) <<< 63) ||| (exponent.toUInt64 <<< 52) ||| fraction.toUInt64⟩

def isNaN (x : Binary64) : Bool := x.exponentField == 0x7FF && x.fractionField != 0

def isInfinite (x : Binary64) : Bool := x.exponentField == 0x7FF && x.fractionField == 0

def isFinite (x : Binary64) : Bool := x.exponentField != 0x7FF

def isZero (x : Binary64) : Bool := x.exponentField == 0 && x.fractionField == 0

/-- The one NaN that operations give. -/
def nan : Binary64 := ofFields false 0x7FF 0x8000000000000

def infinity (negative : Bool) : Binary64 := ofFields negative 0x7FF 0

def zero (negative : Bool) : Binary64 := ofFields negative 0 0

/-- The leading bit of a significand, which the fraction field leaves out. -/
def hiddenBit : Nat := 0x10000000000000

/-- The natural `m` of a finite number `± m · 2^e`. -/
def significand (x : Binary64) : Nat :=
  if x.exponentField = 0 then x.fractionField else x.fractionField + hiddenBit

/-- The exponent `e` of a finite number `± m · 2^e`. -/
def exponent (x : Binary64) : Int :=
  if x.exponentField = 0 then -1074 else (x.exponentField : Int) - 1075

/-! ## Rounding -/

/-- The natural number nearest to `num / den`, the even one on a tie. -/
def roundQuotient (num den : Nat) : Nat :=
  let q := num / den
  let r := num % den
  if 2 * r < den then q
  else if den < 2 * r then q + 1
  else if q % 2 = 0 then q else q + 1

/-- The number `± m · 2^e` for `m ≤ 2^53` and `e` at least the least exponent; infinite past the
greatest finite number. -/
def ofSignificand (negative : Bool) (m : Nat) (e : Int) : Binary64 :=
  let (m, e) := if m = 2 * hiddenBit then (hiddenBit, e + 1) else (m, e)
  if m < hiddenBit then ofFields negative 0 m
  else
    let field := e + 1075
    if 0x7FF ≤ field then infinity negative
    else ofFields negative field.toNat (m - hiddenBit)

/-- The greatest `k` with `2^k ≤ num / den`, for a positive quotient. -/
def binaryExponent (num den : Nat) : Int :=
  let k := (num.log2 : Int) - den.log2
  if den <<< k.toNat ≤ num <<< (-k).toNat then k else k - 1

/-- The number nearest to `± num / den`, the even one on a tie. -/
def ofQuotient (negative : Bool) (num den : Nat) : Binary64 :=
  if num = 0 then zero negative
  else
    let e := max (binaryExponent num den - 52) (-1074)
    ofSignificand negative (roundQuotient (num <<< (-e).toNat) (den <<< e.toNat)) e

/-- The number nearest to `± m · 2^e`. -/
def ofScaled (negative : Bool) (m : Nat) (e : Int) : Binary64 :=
  ofQuotient negative (m <<< e.toNat) (1 <<< (-e).toNat)

def ofNat (n : Nat) : Binary64 := ofQuotient false n 1

def ofInt (i : Int) : Binary64 := ofQuotient (i < 0) i.natAbs 1

/-! ## Order -/

/-- A finite number as `i · 2^e` with the sign in `i`. -/
def signed (x : Binary64) : Int :=
  if x.signBit then -(x.significand : Int) else x.significand

/-- The integer that `i · 2^e` becomes in units of `2^unit`, for `unit ≤ e`. -/
def inUnits (i : Int) (e unit : Int) : Int := i * (1 <<< (e - unit).toNat : Nat)

/-- The order of two numbers; none where one is a NaN. The two zeros are equal. -/
def compare? (x y : Binary64) : Option Ordering :=
  if x.isNaN || y.isNaN then none
  else if x.isInfinite || y.isInfinite then
    let rank (z : Binary64) : Int := if z.isInfinite then (if z.signBit then -1 else 1) else 0
    some (compare (rank x) (rank y))
  else
    let unit := min x.exponent y.exponent
    some (compare (inUnits x.signed x.exponent unit) (inUnits y.signed y.exponent unit))

/-- Numeric equality: a NaN differs from itself, and the two zeros are equal. -/
def same (x y : Binary64) : Bool := x.compare? y == some .eq

/-! ## Whole numbers -/

/-- Whether a number is finite and has no fractional part. -/
def isWhole (x : Binary64) : Bool :=
  x.isFinite && (0 ≤ x.exponent || x.significand % 1 <<< (-x.exponent).toNat == 0)

/-- A finite number without its fractional part. -/
def truncate (x : Binary64) : Int :=
  let m := x.significand <<< x.exponent.toNat >>> (-x.exponent).toNat
  if x.signBit then -(m : Int) else m

/-! ## Arithmetic -/

instance : Neg Binary64 := ⟨fun x => ⟨x.bits ^^^ 0x8000000000000000⟩⟩

/-- The number nearest to `i · 2^e`; a zero keeps the sign it is given. -/
def ofSigned (zeroSign : Bool) (i : Int) (e : Int) : Binary64 :=
  if i = 0 then zero zeroSign else ofScaled (i < 0) i.natAbs e

def add (x y : Binary64) : Binary64 :=
  if x.isNaN || y.isNaN then nan
  else if x.isInfinite then if y.isInfinite && x.signBit != y.signBit then nan else x
  else if y.isInfinite then y
  else
    let unit := min x.exponent y.exponent
    ofSigned (x.signBit && y.signBit)
      (inUnits x.signed x.exponent unit + inUnits y.signed y.exponent unit) unit

def mul (x y : Binary64) : Binary64 :=
  let negative := x.signBit != y.signBit
  if x.isNaN || y.isNaN then nan
  else if x.isInfinite || y.isInfinite then
    if x.isZero || y.isZero then nan else infinity negative
  else ofScaled negative (x.significand * y.significand) (x.exponent + y.exponent)

def div (x y : Binary64) : Binary64 :=
  let negative := x.signBit != y.signBit
  if x.isNaN || y.isNaN then nan
  else if x.isInfinite then if y.isInfinite then nan else infinity negative
  else if y.isInfinite then zero negative
  else if y.isZero then if x.isZero then nan else infinity negative
  else
    let e := x.exponent - y.exponent
    ofQuotient negative (x.significand <<< e.toNat) (y.significand <<< (-e).toNat)

/-- The remainder of the division that truncates; it has the sign of the dividend. -/
def rem (x y : Binary64) : Binary64 :=
  if x.isNaN || y.isNaN || x.isInfinite || y.isZero then nan
  else if y.isInfinite then x
  else
    let unit := min x.exponent y.exponent
    let r := (inUnits x.signed x.exponent unit).tmod (inUnits y.signed y.exponent unit)
    ofSigned x.signBit r unit

instance : Add Binary64 := ⟨add⟩
instance : Sub Binary64 := ⟨fun x y => add x (-y)⟩
instance : Mul Binary64 := ⟨mul⟩
instance : Div Binary64 := ⟨div⟩
instance : Mod Binary64 := ⟨rem⟩

end Binary64

end Scripting
