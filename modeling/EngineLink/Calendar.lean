import EngineLink.Binary64.Arithmetic
import EngineLink.Decimal.Read

/-!
# Days and seconds of the calendar

The month and day of a day of the year, and the seconds of a calendar date since noon of
1 January 2000, both by rational formulas in floating-point arithmetic. The first counts every
fourth year as a leap year, which holds from 1901 to 2099; the second knows the century rule.
-/

namespace EngineLink.Calendar

/-- The decimal `coefficient * 10 ^ exponent` as a floating-point number. -/
def constant (coefficient : Nat) (exponent : Int) : Binary64 :=
  Decimal.Exact.toBinary64 false ⟨coefficient, exponent⟩

/-- The least integer of 64 bits. -/
def minInt64 : Int := -0x8000000000000000

/-- The largest integer of 64 bits. -/
def maxInt64 : Int := 0x7FFFFFFFFFFFFFFF

/-- The month of a day of the year, where `k` is one in a leap year and two in any other. -/
def monthOf (k dayOfYear : Int) : Int :=
  if dayOfYear < 32 then 1
  else
    let months := constant 9 0 * Binary64.ofInt (k + dayOfYear) / constant 275 0 + constant 98 (-2)
    months.truncate minInt64 maxInt64

/-- The month and the day of the month of a day of the year. -/
def monthDay (year dayOfYear : Int) : Int × Int :=
  let k : Int := if year % 4 = 0 then 1 else 2
  let month := monthOf k dayOfYear
  (month, dayOfYear - (275 * month).tdiv 9 + k * (month + 9).tdiv 12 + 30)

/-- The days of a date since noon of 1 January 2000, at its midnight. January and February
count as months of the year before. -/
def daysSinceEpoch (year month day : Int) : Binary64 :=
  let shifted : Int × Int := if month < 3 then (year - 1, month + 12) else (year, month)
  let century := shifted.1.tdiv 100
  let correction := 2 - century + century.tdiv 4
  (constant 36525 (-2) * Binary64.ofInt (shifted.1 - 2000)).floor +
    (constant 306001 (-4) * Binary64.ofInt (shifted.2 + 1)).floor +
    Binary64.ofInt day + Binary64.ofInt correction - constant 505 (-1)

/-- The seconds of an instant since noon of 1 January 2000. -/
def secondsSinceEpoch (year month day hour minute : Int) (second : Binary64) : Binary64 :=
  constant 86400 0 * daysSinceEpoch year month day + constant 3600 0 * Binary64.ofInt hour +
    constant 60 0 * Binary64.ofInt minute + second

end EngineLink.Calendar
