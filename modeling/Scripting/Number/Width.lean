/-
Integers that fit a width.
-/

namespace Scripting

/-- The integer as one of 64 bits, if it is in their range. -/
def int64? (i : Int) : Option Int64 :=
  if Int64.minValue.toInt ≤ i ∧ i ≤ Int64.maxValue.toInt then some (Int64.ofInt i) else none

/-- The integer as one of 32 bits, if it is in their range. -/
def int32? (i : Int) : Option Int32 :=
  if Int32.minValue.toInt ≤ i ∧ i ≤ Int32.maxValue.toInt then some (Int32.ofInt i) else none

end Scripting
