import EngineLink.Calendar
import EngineLink.Proofs.Decimal.Integers
import Mathlib.Tactic.IntervalCases

/-!
# Days of the Gregorian calendar

The lengths of months and years with the century rule, and the month and the day that the
rational formulas give for a day of the year: a date of the calendar whose day of the year it is,
if the year lies in 1901 to 2099 and has that day, and otherwise a day of a thirteenth month.

Read `IsDate` and `month_day_is_date_iff` first.
-/

namespace EngineLink.Calendar

/-- A year of 366 days. -/
def IsLeap (year : Int) : Prop :=
  4 ∣ year ∧ (100 ∣ year → 400 ∣ year)

instance (year : Int) : Decidable (IsLeap year) :=
  inferInstanceAs (Decidable (_ ∧ _))

/-- The days of a year. -/
def yearLength (year : Int) : Int :=
  if IsLeap year then 366 else 365

/-- The days of a month. -/
def monthLength (year month : Int) : Int :=
  if month = 2 then if IsLeap year then 29 else 28
  else if month = 4 ∨ month = 6 ∨ month = 9 ∨ month = 11 then 30
  else 31

/-- The days of the first months of a year. -/
def daysOfMonths (year : Int) : Nat → Int
  | 0 => 0
  | months + 1 => daysOfMonths year months + monthLength year (months + 1)

/-- The months of a year make up the year. -/
theorem days_of_twelve_months (year : Int) : daysOfMonths year 12 = yearLength year := by
  by_cases hleap : IsLeap year
  · simp [daysOfMonths, monthLength, yearLength, hleap]
  · simp [daysOfMonths, monthLength, yearLength, hleap]

/-- The day of the year of a date. -/
def dayOfYear (year month day : Int) : Int :=
  daysOfMonths year (month - 1).toNat + day

/-- The month is one of the year and the day is one of the month. -/
def IsDate (year month day : Int) : Prop :=
  1 ≤ month ∧ month ≤ 12 ∧ 1 ≤ day ∧ day ≤ monthLength year month

instance (year month day : Int) : Decidable (IsDate year month day) :=
  inferInstanceAs (Decidable (_ ∧ _))

/-! ## The month formula -/

/-- A decimal constant of moderate size is the number nearest to it. -/
theorem constant_rounds (coefficient : Nat) (exponent : Int)
    (h : Decimal.underflowPlaces ≤ (Text.digits coefficient).length + exponent ∧
      (Text.digits coefficient).length + exponent ≤ Decimal.overflowPlaces) :
    (constant coefficient exponent).Rounds (coefficient * 10 ^ exponent) :=
  Decimal.to_binary64_rounds false coefficient exponent h

/-- An integer of at most 53 bits is a constant of its own value. -/
theorem integer_constant {n : Nat} (hbits : n < 2 ^ 53) :
    (constant n 0).rational? = some (n : ℚ) :=
  Decimal.to_binary64_of_integer hbits

/-- The rounding in the month formula never reaches an integer. -/
theorem month_of_eq {k n : Int} (hk : 1 ≤ k ∧ k ≤ 2) (hn : 32 ≤ n ∧ n ≤ 366) :
    monthOf k n = (18 * (k + n) + 539) / 550 := by
  have hnine := integer_constant (n := 9) (by decide)
  have hscale := integer_constant (n := 275) (by decide)
  rw [monthOf, if_neg (by omega)]
  dsimp only
  have hs : 33 ≤ k + n ∧ k + n ≤ 368 := by omega
  generalize k + n = s at *
  have hlow : (33 : ℚ) ≤ s := by exact_mod_cast hs.1
  have hhigh : (s : ℚ) ≤ 368 := by exact_mod_cast hs.2
  have hday := (Binary64.of_int_rounds s).integer (by omega)
  have hproduct := Binary64.mul_integers hnine hday (by push_cast; omega)
  -- the quotient, the constant and their sum are rounded, each by less than a third of 1 / 550
  obtain ⟨quotient, hquotient, hquotientError⟩ :=
    (Binary64.div_rounds hproduct hscale (by norm_num)).error (n := 4) (by decide) (by decide) (by
      rw [abs_of_nonneg (by push_cast; linarith)]
      push_cast
      linarith)
  obtain ⟨offset, hoffset, hoffsetError⟩ :=
    (constant_rounds 98 (-2) (by decide +kernel)).error (n := 0) (by decide) (by decide)
      (by norm_num)
  norm_num at hquotientError hoffsetError
  rw [abs_le] at hquotientError hoffsetError
  obtain ⟨months, hmonths, hmonthsError⟩ :=
    (Binary64.add_rounds hquotient hoffset).error (n := 4) (by decide) (by decide) (by
      rw [abs_lt]
      constructor
      · linarith
      · linarith)
  norm_num at hmonthsError
  rw [abs_le] at hmonthsError
  have hnear : |months - ((18 * s + 539 : ℤ) : ℚ) / (550 : ℕ)| < 1 / (550 : ℕ) := by
    push_cast
    rw [abs_lt]
    constructor
    · linarith
    · linarith
  rw [Binary64.truncate_of_rational hmonths (by linarith),
    Binary64.floor_near (by decide) (by push_cast; omega) hnear, minInt64, maxInt64]
  omega

/-! ## The date of a day of the year -/

/-- What the month formula adds to a day of the year. -/
def monthShift (year : Int) : Int :=
  if IsLeap year then 1 else 2

/-- From 1901 to 2099 every fourth year is a leap year. -/
theorem month_shift_eq {year : Int} (h : 1901 ≤ year ∧ year ≤ 2099) :
    (if year % 4 = 0 then 1 else 2) = monthShift year := by
  have hleap : IsLeap year ↔ year % 4 = 0 := by
    rw [IsLeap]
    omega
  rw [monthShift]
  simp only [hleap]

/-- The formula for the day of the month counts the days of the months before. -/
theorem days_of_months_eq (year : Int) {months : Nat} (h : months ≤ 12) :
    daysOfMonths year months = (275 * (months + 1 : ℤ)).tdiv 9 -
      monthShift year * (months + 1 + 9 : ℤ).tdiv 12 - 30 := by
  rw [monthShift]
  by_cases hleap : IsLeap year
  · interval_cases months <;> simp [daysOfMonths, monthLength, hleap]
  · interval_cases months <;> simp [daysOfMonths, monthLength, hleap]

/-- A day of the year falls into the month that the formula gives, and behind the twelfth if the
year does not have it. -/
theorem month_of_spec (year : Int) {n : Int} (hn : 1 ≤ n ∧ n ≤ 366) :
    ∃ months : Nat, monthOf (monthShift year) n = months + 1 ∧ months ≤ 12 ∧
      daysOfMonths year months < n ∧ (months < 12 → n ≤ daysOfMonths year (months + 1)) := by
  rcases lt_or_ge n 32 with hfirst | hlater
  · refine ⟨0, by rw [monthOf, if_pos hfirst]; rfl, by decide, hn.1, fun _ => ?_⟩
    simp only [daysOfMonths, monthLength]
    norm_num
    omega
  · have hshift : 1 ≤ monthShift year ∧ monthShift year ≤ 2 := by
      rw [monthShift]
      split <;> decide
    have hmonth := month_of_eq hshift ⟨hlater, hn.2⟩
    obtain ⟨months, hmonths⟩ : ∃ months : Nat,
        (18 * (monthShift year + n) + 539) / 550 = months + 1 :=
      Int.eq_succ_of_zero_lt (by omega)
    have hlast : months ≤ 12 := by omega
    refine ⟨months, hmonth.trans hmonths, hlast, ?_⟩
    rw [monthShift] at hmonths
    by_cases hleap : IsLeap year
    · rw [if_pos hleap] at hmonths
      interval_cases months <;> simp [daysOfMonths, monthLength, hleap] <;> omega
    · rw [if_neg hleap] at hmonths
      interval_cases months <;> simp [daysOfMonths, monthLength, hleap] <;> omega

/-- More months have more days. -/
theorem days_of_months_le (year : Int) {months later : Nat} (h : months ≤ later) :
    daysOfMonths year months ≤ daysOfMonths year later := by
  induction later, h using Nat.le_induction with
  | base => exact le_refl _
  | succ later _ ih =>
      have hlength : 0 ≤ monthLength year (later + 1) := by
        rw [monthLength]
        split_ifs <;> decide
      rw [daysOfMonths]
      omega

/-- The date that the formulas give for a day of the year, in one of twelve months if the year has
the day and in a thirteenth one otherwise. -/
theorem month_day_eq {year n : Int} (hyear : 1901 ≤ year ∧ year ≤ 2099) (hn : 1 ≤ n ∧ n ≤ 366) :
    ∃ months : Nat, monthDay year n = ((months : Int) + 1, n - daysOfMonths year months) ∧
      daysOfMonths year months < n ∧
      (n ≤ yearLength year → months < 12 ∧ n ≤ daysOfMonths year (months + 1)) ∧
      (yearLength year < n → months = 12) := by
  obtain ⟨months, hmonth, hlast, hafter, hwithin⟩ := month_of_spec year hn
  refine ⟨months, ?_, hafter, fun hhas => ?_, fun hmissing => ?_⟩
  · simp only [monthDay, month_shift_eq hyear, hmonth, days_of_months_eq year hlast]
    congr 1
    ring
  · have hmonths : months < 12 := by
      refine lt_of_le_of_ne hlast ?_
      rintro rfl
      exact absurd hhas (not_le.2 (days_of_twelve_months year ▸ hafter))
    exact ⟨hmonths, hwithin hmonths⟩
  · by_contra hne
    have hmonths : months < 12 := lt_of_le_of_ne hlast hne
    have hyearLength := days_of_months_le year hmonths
    rw [days_of_twelve_months] at hyearLength
    exact absurd hmissing (not_lt.2 ((hwithin hmonths).trans hyearLength))

/-- From 1901 to 2099 the formulas give a date of the calendar, and the one of this day of the
year, for the days that the year has and for no other. -/
theorem month_day_is_date_iff {year n : Int} (hyear : 1901 ≤ year ∧ year ≤ 2099)
    (hn : 1 ≤ n ∧ n ≤ 366) :
    (IsDate year (monthDay year n).1 (monthDay year n).2 ∧
        dayOfYear year (monthDay year n).1 (monthDay year n).2 = n) ↔ n ≤ yearLength year := by
  obtain ⟨months, hdate, hafter, hhas, hmissing⟩ := month_day_eq hyear hn
  rw [hdate]
  dsimp only
  constructor
  · rintro ⟨⟨-, hmonth, -⟩, -⟩
    by_contra hnot
    have := hmissing (not_le.1 hnot)
    omega
  · intro hyearLength
    obtain ⟨hmonths, hlength⟩ := hhas hyearLength
    rw [daysOfMonths] at hlength
    refine ⟨⟨by omega, by omega, by omega, by omega⟩, ?_⟩
    rw [dayOfYear, add_sub_cancel_right, Int.toNat_natCast, add_sub_cancel]

/-- The first day of any year is the first of January. -/
theorem month_day_of_new_year (year : Int) :
    monthDay year 1 = (1, 1) ∧ IsDate year 1 1 ∧ dayOfYear year 1 1 = 1 := by
  refine ⟨?_, ⟨by decide, by decide, by decide, by simp [monthLength]⟩, rfl⟩
  rw [monthDay, monthOf, if_pos (by decide)]
  split <;> rfl

/-- The day behind the last one of a year of 365 days becomes the first of a thirteenth month. -/
theorem month_day_of_missing {year n : Int} (hyear : 1901 ≤ year ∧ year ≤ 2099)
    (hn : 1 ≤ n ∧ n ≤ 366) (hyearLength : yearLength year < n) : monthDay year n = (13, 1) := by
  obtain ⟨months, hdate, hafter, -, hmissing⟩ := month_day_eq hyear hn
  obtain rfl := hmissing hyearLength
  have hleast : 365 ≤ yearLength year := by
    rw [yearLength]
    split <;> decide
  rw [days_of_twelve_months] at hdate hafter
  rw [hdate]
  refine Prod.ext (by norm_num) ?_
  dsimp only
  omega

end EngineLink.Calendar
