import EngineLink.Proofs.Calendar.Gregorian

/-!
# Seconds since the epoch

The days from 1 January 2000 to a day of another year, counted by the lengths of the years between,
and the rational formulas for days and seconds, which give exactly this count for every date of the
Gregorian calendar with a year of up to four digits.

Read `daysSince2000` and `elapsedSeconds` first, then `seconds_of_date`.
-/

namespace EngineLink.Calendar

/-- The days of the first years, from the year 0 on. -/
def daysOfYears : Nat → Int
  | 0 => 0
  | years + 1 => daysOfYears years + yearLength years

/-- The days from 1 January 2000 to the day `n` of a year, negative for an earlier year. -/
def daysSince2000 (year n : Int) : Int :=
  (daysOfYears year.toNat + n) - (daysOfYears 2000 + 1)

/-- The seconds from noon of a day to a time of the day that comes so many days later. -/
def elapsedSeconds (days hour minute second : Int) : Int :=
  86400 * days + 3600 * (hour - 12) + 60 * minute + second

/-- The seconds of a moment are counted on from those of its minute. -/
theorem elapsed_seconds_add (days hour minute second : Int) :
    elapsedSeconds days hour minute second = elapsedSeconds days hour minute 0 + second := by
  rw [elapsedSeconds, elapsedSeconds, add_zero]

/-! ## Counting years -/

/-- Every fourth of the years from 0 on is a leap year, but of the centuries only every fourth. -/
theorem days_of_years_eq (years : Nat) :
    daysOfYears years =
      365 * years + (years + 3) / 4 - (years + 99) / 100 + (years + 399) / 400 := by
  induction years with
  | zero => rfl
  | succ years ih =>
      rw [daysOfYears, ih, yearLength]
      by_cases hleap : IsLeap years
      · rw [if_pos hleap]
        rw [IsLeap] at hleap
        omega
      · rw [if_neg hleap]
        rw [IsLeap] at hleap
        omega

/-- The first day of a year comes behind the last one of the year before. -/
theorem days_since_of_new_year (year : Nat) :
    daysSince2000 (year + 1) 1 = daysSince2000 year (yearLength year) + 1 := by
  have hnext : ((year : Int) + 1).toNat = year + 1 := by omega
  rw [daysSince2000, daysSince2000, hnext, Int.toNat_natCast, daysOfYears]
  omega

/-! ## The terms of the day formula -/

/-- The days of `y` years of 365 and a quarter days, rounded down. -/
theorem floor_of_years {y : Int} (h : -2000 ≤ y ∧ y ≤ 8000) :
    (constant 36525 (-2) * Binary64.ofInt y).floor.rational? =
      some ((365 * y + y / 4 : Int) : ℚ) := by
  have hyears := (Binary64.of_int_rounds y).integer (by omega)
  have hlength : (constant 36525 (-2)).rational? = some (1461 / 4 : ℚ) := by
    have hrounds := constant_rounds 36525 (-2) (by decide +kernel)
    rw [show ((36525 : ℕ) : ℚ) * 10 ^ (-2 : ℤ) = 1461 / 4 by norm_num] at hrounds
    exact hrounds.exact (k := 1461) (e := -2) (by decide) (by decide) (by decide) (by norm_num)
  -- two bits behind the point are enough, so that nothing is rounded
  have hproduct : (constant 36525 (-2) * Binary64.ofInt y).rational? =
      some (1461 / 4 * y : ℚ) := by
    refine (Binary64.mul_rounds hlength hyears).exact (k := (1461 * y).natAbs) (e := -2)
      (by omega) (by decide) (by decide) ?_
    rw [Nat.cast_natAbs, Int.cast_abs, abs_mul, Int.cast_mul, abs_mul]
    norm_num
    ring
  have hfloor : ⌊(1461 / 4 * y : ℚ)⌋ = 365 * y + y / 4 := by
    have hdiv : 4 * (y / 4) ≤ y ∧ y < 4 * (y / 4) + 4 := by omega
    have hlow : (4 * (y / 4 : ℤ) : ℚ) ≤ y := by exact_mod_cast hdiv.1
    have hhigh : (y : ℚ) < 4 * (y / 4 : ℤ) + 4 := by exact_mod_cast hdiv.2
    rw [Int.floor_eq_iff]
    push_cast
    constructor
    · linarith
    · linarith
  rw [← hfloor]
  exact Binary64.floor_of_rational hproduct (by omega)

/-- The days of the months before, counted from March on: the rounding in the formula never reaches
an integer. -/
theorem floor_of_months {m : Int} (h : 4 ≤ m ∧ m ≤ 15) :
    (constant 306001 (-4) * Binary64.ofInt m).floor.rational? =
      some ((306001 * m / 10000 : Int) : ℚ) := by
  have hmonths := (Binary64.of_int_rounds m).integer (by omega)
  have hlow : (4 : ℚ) ≤ m := by exact_mod_cast h.1
  have hhigh : (m : ℚ) ≤ 15 := by exact_mod_cast h.2
  obtain ⟨length, hlength, hlengthError⟩ :=
    (constant_rounds 306001 (-4) (by decide +kernel)).error (n := 5) (by decide) (by decide)
      (by norm_num)
  -- the error of the constant is multiplied, and the product is rounded once more
  have hscaled : |length * m - 306001 / 10000 * m| ≤ 2 ^ (-49 : ℤ) * 15 := by
    rw [← sub_mul, abs_mul, abs_of_pos (by linarith : (0 : ℚ) < m)]
    refine mul_le_mul ?_ hhigh (by linarith) (by positivity)
    norm_num at hlengthError ⊢
    exact hlengthError
  norm_num at hscaled
  rw [abs_le] at hscaled
  obtain ⟨days, hdays, hdaysError⟩ :=
    (Binary64.mul_rounds hlength hmonths).error (n := 9) (by decide) (by decide) (by
      rw [abs_lt]
      norm_num
      constructor
      · linarith
      · linarith)
  norm_num at hdaysError
  rw [abs_le] at hdaysError
  have hnear : |days - ((306001 * m : ℤ) : ℚ) / (10000 : ℕ)| < 1 / (10000 : ℕ) := by
    push_cast
    rw [abs_lt]
    constructor
    · linarith
    · linarith
  have hfloor : ⌊days⌋ = 306001 * m / 10000 :=
    Binary64.floor_near (by decide) (by push_cast; omega) hnear
  rw [← hfloor]
  exact Binary64.floor_of_rational hdays (by omega)

/-! ## Days and seconds of a date -/

/-- The sum of the terms of the formula, for a year and a month that start in March. -/
def termsOf (y m day : Int) : Int :=
  365 * (y - 2000) + (y - 2000) / 4 + 306001 * (m + 1) / 10000 + day +
    (2 - y / 100 + y / 100 / 4)

/-- For dates of the years up to 9999 the sum of the day formula is computed without an error. -/
theorem terms_rational {y m day : Int} (hy : 0 ≤ y ∧ y ≤ 9999) (hm : 3 ≤ m ∧ m ≤ 14)
    (hday : 1 ≤ day ∧ day ≤ 31) :
    ((constant 36525 (-2) * Binary64.ofInt (y - 2000)).floor +
      (constant 306001 (-4) * Binary64.ofInt (m + 1)).floor + Binary64.ofInt day +
      Binary64.ofInt (2 - y.tdiv 100 + (y.tdiv 100).tdiv 4) - constant 505 (-1)).rational? =
      some ((termsOf y m day : ℚ) - 101 / 2) := by
  rw [Int.tdiv_eq_ediv_of_nonneg hy.1, Int.tdiv_eq_ediv_of_nonneg (by omega : 0 ≤ y / 100)]
  have hyears := floor_of_years (y := y - 2000) (by omega)
  have hmonths := floor_of_months (m := m + 1) (by omega)
  have hdays := (Binary64.of_int_rounds day).integer (by omega)
  have hcorrection :=
    (Binary64.of_int_rounds (2 - y / 100 + y / 100 / 4)).integer (by omega)
  have hsum := Binary64.add_integers (Binary64.add_integers
    (Binary64.add_integers hyears hmonths (by omega)) hdays (by omega)) hcorrection (by omega)
  have hhalf : (constant 505 (-1)).rational? = some (101 / 2 : ℚ) := by
    have hrounds := constant_rounds 505 (-1) (by decide +kernel)
    rw [show ((505 : ℕ) : ℚ) * 10 ^ (-1 : ℤ) = 101 / 2 by norm_num] at hrounds
    exact hrounds.exact (k := 101) (e := -1) (by decide) (by decide) (by decide) (by norm_num)
  -- the difference has one bit behind the point
  refine (Binary64.sub_rounds hsum hhalf).exact (k := (2 * termsOf y m day - 101).natAbs) (e := -1)
    (by rw [termsOf]; omega) (by decide) (by decide) ?_
  rw [Nat.cast_natAbs, Int.cast_abs, ← abs_of_pos (by norm_num : (0 : ℚ) < 2 ^ (-1 : ℤ)), ← abs_mul]
  congr 1
  rw [termsOf]
  push_cast
  norm_num
  ring

/-- The terms of the formula add up to the days counted and a constant. -/
theorem terms_of_date {year month day : Int} (hyear : 1 ≤ year ∧ year ≤ 9999)
    (hdate : IsDate year month day) :
    termsOf (if month < 3 then year - 1 else year) (if month < 3 then month + 12 else month) day =
      daysSince2000 year (dayOfYear year month day) + 50 := by
  obtain ⟨n, rfl⟩ := Int.eq_ofNat_of_zero_le (by omega : 0 ≤ year)
  obtain ⟨hfirst, hlast, -, -⟩ := hdate
  rw [daysSince2000, dayOfYear, Int.toNat_natCast, days_of_years_eq, days_of_years_eq]
  -- with the month known, only quotients of the year are left on both sides
  by_cases hleap : IsLeap n
  · have hrule := hleap
    rw [IsLeap] at hrule
    interval_cases month <;> simp [termsOf, daysOfMonths, monthLength, hleap] <;> omega
  · have hrule := hleap
    rw [IsLeap] at hrule
    interval_cases month <;> simp [termsOf, daysOfMonths, monthLength, hleap] <;> omega

/-- A month has at most 31 days. -/
theorem month_length_le (year month : Int) : monthLength year month ≤ 31 := by
  rw [monthLength]
  split_ifs <;> decide

/-- The days of a date are the days counted up to its midnight, half a day before noon. -/
theorem days_of_date {year month day : Int} (hyear : 1 ≤ year ∧ year ≤ 9999)
    (hdate : IsDate year month day) :
    (daysSinceEpoch year month day).rational? =
      some ((daysSince2000 year (dayOfYear year month day) : ℚ) - 1 / 2) := by
  have hterms := terms_of_date hyear hdate
  obtain ⟨hfirst, hlast, hday, hdays⟩ := hdate
  have hlength := month_length_le year month
  have hsum : (termsOf (if month < 3 then year - 1 else year)
      (if month < 3 then month + 12 else month) day : ℚ) - 101 / 2 =
        (daysSince2000 year (dayOfYear year month day) : ℚ) - 1 / 2 := by
    rw [hterms]
    push_cast
    ring
  rw [← hsum, daysSinceEpoch]
  split
  · exact terms_rational (by omega) (by omega) (by omega)
  · exact terms_rational (by omega) (by omega) (by omega)

/-- A date has a day of the year that its year has. -/
theorem day_of_year_bounds {year month day : Int} (h : IsDate year month day) :
    1 ≤ dayOfYear year month day ∧ dayOfYear year month day ≤ yearLength year := by
  obtain ⟨hfirst, hlast, hday, hlength⟩ := h
  obtain ⟨months, rfl⟩ := Int.eq_succ_of_zero_lt (by omega : 0 < month)
  have hbefore := days_of_months_le year (Nat.zero_le months)
  have hwithin := days_of_months_le year (by omega : months + 1 ≤ 12)
  rw [days_of_twelve_months, daysOfMonths] at hwithin
  rw [daysOfMonths] at hbefore
  rw [dayOfYear, add_sub_cancel_right, Int.toNat_natCast]
  omega

/-- A year has at most 366 days. -/
theorem year_length_le (year : Int) : yearLength year ≤ 366 := by
  rw [yearLength]
  split <;> decide

/-- Within the range of years the days between a date and the start of 2000 are fewer than four
millions. -/
theorem days_since_bounds {year n : Int} (hyear : 1 ≤ year ∧ year ≤ 9999)
    (hn : 1 ≤ n ∧ n ≤ yearLength year) : (daysSince2000 year n).natAbs ≤ 4000000 := by
  have hlength := year_length_le year
  rw [daysSince2000, days_of_years_eq, days_of_years_eq]
  omega

/-- The clock is added to the days in seconds, of which each sum is a whole number. -/
theorem clock_rational {x : Binary64} {days hour minute : Int}
    (hx : x.rational? = some ((days : ℚ) - 1 / 2)) (hdays : days.natAbs ≤ 4000000)
    (hhour : 0 ≤ hour ∧ hour ≤ 23) (hminute : 0 ≤ minute ∧ minute ≤ 59) :
    (constant 86400 0 * x + constant 3600 0 * Binary64.ofInt hour +
      constant 60 0 * Binary64.ofInt minute).rational? =
        some ((elapsedSeconds days hour minute 0 : Int) : ℚ) := by
  have hday := integer_constant (n := 86400) (by decide)
  have hhourLength := integer_constant (n := 3600) (by decide)
  have hminuteLength := integer_constant (n := 60) (by decide)
  have hmidnight : (constant 86400 0 * x).rational? = some ((86400 * days - 43200 : Int) : ℚ) := by
    refine Binary64.Rounds.integer ?_ (by omega)
    have hproduct := Binary64.mul_rounds hday hx
    convert hproduct using 1
    push_cast
    ring
  have hhours := Binary64.mul_integers hhourLength
    ((Binary64.of_int_rounds hour).integer (by omega)) (by push_cast; omega)
  have hminutes := Binary64.mul_integers hminuteLength
    ((Binary64.of_int_rounds minute).integer (by omega)) (by push_cast; omega)
  have hsum := Binary64.add_integers
    (Binary64.add_integers hmidnight hhours (by push_cast; omega)) hminutes (by push_cast; omega)
  convert hsum using 3
  rw [elapsedSeconds]
  push_cast
  ring

/-- For every date with a year of up to four digits and every whole second of it, the seconds since
noon of 1 January 2000 are exactly those counted. -/
theorem seconds_of_date {year month day hour minute s : Int} {second : Binary64}
    (hyear : 1 ≤ year ∧ year ≤ 9999) (hdate : IsDate year month day)
    (hhour : 0 ≤ hour ∧ hour ≤ 23) (hminute : 0 ≤ minute ∧ minute ≤ 59)
    (hs : 0 ≤ s ∧ s ≤ 59) (hsecond : second.rational? = some (s : ℚ)) :
    (secondsSinceEpoch year month day hour minute second).rational? =
      some ((elapsedSeconds (daysSince2000 year (dayOfYear year month day)) hour minute s :
        Int) : ℚ) := by
  have hbounds := days_since_bounds hyear (day_of_year_bounds hdate)
  have hclock := clock_rational (days_of_date hyear hdate) hbounds hhour hminute
  rw [elapsed_seconds_add]
  exact Binary64.add_integers hclock hsecond (by rw [elapsedSeconds]; omega)

/-- The last second of February of 1900, which has 28 days. -/
theorem seconds_of_century_february :
    IsDate 1900 2 28 ∧ ¬ IsDate 1900 2 29 ∧
      (secondsSinceEpoch 1900 2 28 23 59 (.ofInt 59)).rational? = some (-3150619201 : ℚ) := by
  have hdate : IsDate 1900 2 28 := by decide
  have hsecond : (Binary64.ofInt 59).rational? = some ((59 : Int) : ℚ) :=
    (Binary64.of_int_rounds 59).integer (by decide)
  have hdays : daysSince2000 1900 (dayOfYear 1900 2 28) = -36466 := by
    rw [daysSince2000, days_of_years_eq, days_of_years_eq]
    decide
  have hhour : (0 : Int) ≤ 23 ∧ (23 : Int) ≤ 23 := by decide
  have hminute : (0 : Int) ≤ 59 ∧ (59 : Int) ≤ 59 := by decide
  have hseconds := seconds_of_date (by decide) hdate hhour hminute (by decide) hsecond
  rw [hdays] at hseconds
  exact ⟨hdate, by decide, hseconds.trans (by norm_num [elapsedSeconds])⟩

end EngineLink.Calendar
