/-
Moments in time: a count of milliseconds since the start of 1970, written as a date and a time of day
in universal time.
-/

namespace Scripting

/-- A moment in time. -/
structure Timestamp where
  millis : Nat
  deriving DecidableEq, Inhabited

namespace Timestamp

/-- A number with at least so many digits. -/
def padded (width n : Nat) : String :=
  let digits := toString n
  String.ofList (List.replicate (width - digits.length) '0') ++ digits

/-- Year, month and day of a count of days since the start of 1970. The years are counted from March,
in cycles of four centuries. -/
def civil (days : Nat) : Nat × Nat × Nat :=
  let z := days + 719468
  let era := z / 146097
  let dayOfEra := z % 146097
  let yearOfEra := (dayOfEra - dayOfEra / 1460 + dayOfEra / 36524 - dayOfEra / 146096) / 365
  let dayOfYear := dayOfEra - (365 * yearOfEra + yearOfEra / 4 - yearOfEra / 100)
  let m := (5 * dayOfYear + 2) / 153
  let day := dayOfYear - (153 * m + 2) / 5 + 1
  let month := if m < 10 then m + 3 else m - 9
  (yearOfEra + era * 400 + (if month ≤ 2 then 1 else 0), month, day)

/-- The date and time with the offset of universal time. -/
def text (t : Timestamp) : String :=
  let seconds := t.millis / 1000
  let (year, month, day) := civil (seconds / 86400)
  let ofDay := seconds % 86400
  let fraction := if t.millis % 1000 = 0 then "" else "." ++ padded 3 (t.millis % 1000)
  padded 4 year ++ "-" ++ padded 2 month ++ "-" ++ padded 2 day ++ "T" ++ padded 2 (ofDay / 3600) ++
    ":" ++ padded 2 (ofDay / 60 % 60) ++ ":" ++ padded 2 (ofDay % 60) ++ fraction ++ "+00:00"

end Timestamp

/-! ## Deadlines -/

/-- The last moment, in milliseconds, that a clock can show. -/
def Timestamp.last : Nat := 0x8000000000000000 * 1000

/-- The moment a span after another, if a clock can show it. -/
def Timestamp.after? (now span : Nat) : Option Nat :=
  if now + span < Timestamp.last then some (now + span) else none

end Scripting
