import EngineLink.Proofs.Calendar.Seconds
import EngineLink.Proofs.Decimal.Integers
import EngineLink.Proofs.Telemetry.Occurrences

/-!
# The seconds of a stamp

A message that begins with the stamp of a whole second of the years 1901 to 2099 has the seconds up
to it, counted by the lengths of the years, as its time: as a text and as the number that this text
is read as. A day later these are 86400 more.

Read `Moment.seconds` and `Moment.Stamps` first, then `abs_time_of_stamp`.
-/

namespace EngineLink.Telemetry

/-- A second of a day of a year. -/
structure Moment where
  year : Nat
  dayOfYear : Nat
  hour : Nat
  minute : Nat
  second : Nat

namespace Moment

/-- The year has the day, and the day the hour, minute and second. -/
structure Valid (t : Moment) : Prop where
  year_range : 1901 ≤ t.year ∧ t.year ≤ 2099
  day_range : 1 ≤ t.dayOfYear ∧ (t.dayOfYear : Int) ≤ Calendar.yearLength t.year
  hour_le : t.hour ≤ 23
  minute_le : t.minute ≤ 59
  second_le : t.second ≤ 59

/-- The month and the day of the formulas are the date of the day, and the clock is that of a
day. -/
structure Placed (t : Moment) : Prop where
  year_range : 1 ≤ t.year ∧ t.year ≤ 9999
  date :
    let date := Calendar.monthDay t.year t.dayOfYear
    Calendar.IsDate t.year date.1 date.2 ∧
      Calendar.dayOfYear t.year date.1 date.2 = t.dayOfYear
  hour_le : t.hour ≤ 23
  minute_le : t.minute ≤ 59
  second_le : t.second ≤ 59

/-- The formulas place a valid moment on its date. -/
theorem Valid.placed {t : Moment} (h : t.Valid) : t.Placed := by
  obtain ⟨⟨hfirst, hlast⟩, ⟨hdayFirst, hdayLast⟩, hhour, hminute, hsecond⟩ := h
  have hlength := Calendar.year_length_le t.year
  exact ⟨by omega, (Calendar.month_day_is_date_iff (by omega) (by omega)).2 hdayLast, hhour,
    hminute, hsecond⟩

/-- A moment on its date has a day that its year has. -/
theorem Placed.day_range {t : Moment} (h : t.Placed) :
    1 ≤ t.dayOfYear ∧ (t.dayOfYear : Int) ≤ Calendar.yearLength t.year := by
  obtain ⟨hdate, hday⟩ := h.date
  have hbounds := Calendar.day_of_year_bounds hdate
  rw [hday] at hbounds
  exact ⟨by omega, hbounds.2⟩

/-- The seconds since noon of 1 January 2000, counted by the lengths of the years between. -/
def seconds (t : Moment) : Int :=
  Calendar.elapsedSeconds (Calendar.daysSince2000 t.year t.dayOfYear) t.hour t.minute t.second

/-- The same time a day later. -/
def nextDay (t : Moment) : Moment :=
  if (t.dayOfYear : Int) < Calendar.yearLength t.year then { t with dayOfYear := t.dayOfYear + 1 }
  else { t with year := t.year + 1, dayOfYear := 1 }

/-- The texts of a moment as `YYYY-DDD-HH:MM:SS`. -/
inductive Stamp (t : Moment) : List Char → Prop
  | intro {year day hour minute second : List Char} (hyear : Text.Numeral t.year year)
      (hday : Text.Numeral t.dayOfYear day) (hhour : Text.Numeral t.hour hour)
      (hminute : Text.Numeral t.minute minute) (hsecond : Text.Numeral t.second second) :
      Stamp t (year ++ '-' :: (day ++ '-' :: (hour ++ ':' :: (minute ++ ':' :: second))))

/-- A line that carries a stamp of a moment. -/
inductive Stamps (t : Moment) (line : String) : Prop
  | intro {before stamp after : List Char} (hstamp : t.Stamp stamp)
      (hbefore : ∀ c ∈ before, Text.isBlank c) (hafter : ∀ c ∈ after, Text.isBlank c)
      (hline : line.toList = timeKey.toList ++ (before ++ (stamp ++ after)))

/-- The instant of a moment, of which the second is read as a number. -/
def instant (t : Moment) (second : Binary64) : Instant :=
  ⟨t.year, t.dayOfYear, t.hour, t.minute, second⟩

end Moment

/-! ## Reading a stamp -/

/-- The text of a stamp takes no other key. -/
theorem lookup_behind_time (text : String) (parts : List (String × String)) {key : String}
    (hkey : key ≠ timeKey) : (addAllNew [(timeKey, text)] parts).lookup key = parts.lookup key := by
  have hother : [(timeKey, text)].lookup key = none :=
    lookup_eq_none_iff.2 fun hmem => hkey (List.mem_singleton.1 hmem)
  rw [lookup_add_all_new, hother, Option.none_or]

/-- A part of a stamp is read as its digits. -/
theorem field_text_of_part (text : String) {parts : List (String × String)} {key : String}
    (hkey : key ≠ timeKey) {n : Nat} {cs : List Char} (hcs : Text.Numeral n cs)
    (hpart : parts.lookup key = some (String.ofList cs)) :
    fieldText (addAllNew [(timeKey, text)] parts) key = cs := by
  rw [fieldText, lookup_behind_time text parts hkey, hpart, Option.getD_some, String.toList_ofList,
    hcs.trim]

/-- A part of a stamp is read as the number of its digits. -/
theorem integer_field_of_part (text : String) {parts : List (String × String)} {key : String}
    (hkey : key ≠ timeKey) {n : Nat} {cs : List Char} (hcs : Text.Numeral n cs)
    (hpart : parts.lookup key = some (String.ofList cs)) (hn : n < 2 ^ 63) :
    integerField (addAllNew [(timeKey, text)] parts) key = .ok (n : Int) := by
  rw [integerField, field_text_of_part text hkey hcs hpart, hcs.read_int64 hn]

/-- Numerals hold none of the marks between them, nor white space. -/
theorem stamp_fields_of_numerals {t : Moment} {year day hour minute second : List Char}
    (hyear : Text.Numeral t.year year) (hday : Text.Numeral t.dayOfYear day)
    (hhour : Text.Numeral t.hour hour) (hminute : Text.Numeral t.minute minute)
    (hsecond : Text.Numeral t.second second) :
    stampFields (year ++ '-' :: (day ++ '-' :: (hour ++ ':' :: (minute ++ ':' :: second)))) =
      .ok [("YEAR", .ofList year), ("DOY", .ofList day), ("HOUR", .ofList hour),
        ("MINUTE", .ofList minute), ("SECOND", .ofList second)] := by
  have hfirst := hyear.not_mem (c := '-') rfl
  have hnext := hday.not_mem (c := '-') rfl
  have hcolon := hhour.not_mem (c := ':') rfl
  have hlast := hminute.not_mem (c := ':') rfl
  simp only [stampFields, split_first_eq_some_iff.2 ⟨rfl, hfirst⟩,
    split_first_eq_some_iff.2 ⟨rfl, hnext⟩, split_first_eq_some_iff.2 ⟨rfl, hcolon⟩,
    split_first_eq_some_iff.2 ⟨rfl, hlast⟩, hyear.trim, hday.trim, hhour.trim, hminute.trim,
    hsecond.trim]

/-- A moment is read from its stamp, together with a second that has a plus sign also if it is
zero. -/
theorem Moment.Stamp.read {t : Moment} {stamp : List Char} (h : t.Stamp stamp) (ht : t.Placed)
    (text : String) :
    ∃ parts second, stampFields stamp = .ok parts ∧ parts.map Prod.fst = partKeys ∧
      readInstant (addAllNew [(timeKey, text)] parts) = .ok (t.instant second) ∧
        second.rational? = some (t.second : ℚ) ∧ second.isNegative = false := by
  have hlength := Calendar.year_length_le t.year
  have hdays := ht.day_range
  obtain ⟨hyears, -, hhourLe, hminuteLe, hsecondLe⟩ := ht
  cases h with
  | @intro year day hour minute second hyear hday hhour hminute hsecond =>
      obtain ⟨x, hread, hvalue, hsign⟩ := Decimal.read_of_numeral hsecond (by omega)
      refine ⟨_, x, stamp_fields_of_numerals hyear hday hhour hminute hsecond, rfl, ?_, hvalue,
        hsign⟩
      rw [read_instant_eq_ok_iff, in_range_iff]
      refine ⟨integer_field_of_part text (by decide) hyear rfl (by omega),
        integer_field_of_part text (by decide) hday rfl (by omega),
        integer_field_of_part text (by decide) hhour rfl (by omega),
        integer_field_of_part text (by decide) hminute rfl (by omega), ?_, ?_⟩
      · rw [field_text_of_part text (by decide) hsecond rfl]
        exact hread
      · dsimp only [Moment.instant]
        exact ⟨by omega, by omega, by omega, by omega, Binary64.is_finite_of_rational hvalue⟩

/-- A stamp has digits, dashes and colons only. -/
theorem Moment.Stamp.chars {t : Moment} {stamp : List Char} (h : t.Stamp stamp) :
    ∀ c ∈ stamp, c.isDigit ∨ c = '-' ∨ c = ':' := by
  cases h with
  | intro hyear hday hhour hminute hsecond =>
      intro c hc
      simp only [List.mem_append, List.mem_cons] at hc
      rcases hc with hc | hc | hc | hc | hc | hc | hc | hc | hc
      · exact .inl (hyear.is_digit c hc)
      · exact .inr (.inl hc)
      · exact .inl (hday.is_digit c hc)
      · exact .inr (.inl hc)
      · exact .inl (hhour.is_digit c hc)
      · exact .inr (.inr hc)
      · exact .inl (hminute.is_digit c hc)
      · exact .inr (.inr hc)
      · exact .inl (hsecond.is_digit c hc)

/-- A stamp has no white space. -/
theorem Moment.Stamp.not_blank {t : Moment} {stamp : List Char} (h : t.Stamp stamp) :
    ∀ c ∈ stamp, Text.isBlank c = false := by
  intro c hc
  rcases h.chars c hc with hdigit | rfl | rfl
  · have hvisible := Text.to_nat_of_is_digit hdigit
    exact Text.not_blank_of_visible (by omega)
  · decide
  · decide

/-- A line that carries a stamp is no equation. -/
theorem Moment.Stamps.not_equation {t : Moment} {line : String} (h : t.Stamps line) :
    '=' ∉ line.toList := by
  cases h with
  | intro hstamp hbefore hafter hline =>
      rw [hline]
      simp only [List.mem_append, not_or]
      refine ⟨by decide, fun hmem => ?_, fun hmem => ?_, fun hmem => ?_⟩
      · exact absurd (hbefore _ hmem) (by decide)
      · exact absurd (hstamp.chars _ hmem) (by decide)
      · exact absurd (hafter _ hmem) (by decide)

/-- A line that carries a stamp of a moment gives what follows from the moment. -/
theorem Moment.Stamps.add_line {t : Moment} {line : String} (h : t.Stamps line) (ht : t.Placed) :
    ∃ second, second.rational? = some (t.second : ℚ) ∧ second.isNegative = false ∧
      ∀ key ∈ derivedKeys,
        (addLine [] line).1.lookup key = (t.instant second).derived.lookup key := by
  have hequation := split_first_eq_none_iff.2 h.not_equation
  cases h with
  | @intro before stamp after hstamp hbefore hafter hline =>
      obtain ⟨parts, second, hparts, hkeys, hinstant, hvalue, hsign⟩ :=
        hstamp.read ht (String.ofList stamp)
      refine ⟨second, hvalue, hsign, fun key hkey => ?_⟩
      have hadded : (addLine [] line).1 =
          addAllNew (addAllNew [(timeKey, String.ofList stamp)] parts)
            (t.instant second).derived := by
        have hheld : addNew [] timeKey (String.ofList stamp) =
            [(timeKey, String.ofList stamp)] := rfl
        simp only [addLine, hequation, behind_eq_some_iff.2 hline,
          Text.trim_chars_of_padded hbefore hstamp.not_blank hafter, addStamp, hparts, hheld,
          hinstant]
      have htime : key ≠ timeKey := by
        rintro rfl
        exact absurd hkey (by decide)
      have hpart : parts.lookup key = none :=
        lookup_eq_none_iff.2 (hkeys ▸ not_mem_part_keys key hkey)
      rw [hadded, lookup_add_all_new, lookup_behind_time _ _ htime, hpart, Option.none_or]

/-! ## The seconds of a moment -/

/-- The seconds of a moment are computed exactly, zero with a plus sign. -/
theorem Moment.seconds_of_instant {t : Moment} (ht : t.Placed) {second : Binary64}
    (hsecond : second.rational? = some (t.second : ℚ)) (hsign : second.isNegative = false) :
    ∃ x, (t.instant second).derived.lookup "ABSTIME" = some (String.ofList (Decimal.fixed 6 x)) ∧
      x.rational? = some (t.seconds : ℚ) ∧ (t.seconds = 0 → x.isNegative = false) := by
  have hdays := ht.day_range
  obtain ⟨hyears, ⟨hdate, hday⟩, hhour, hminute, hsecondLe⟩ := ht
  have hmidnight := Calendar.days_of_date (by omega) hdate
  rw [hday] at hmidnight
  have hbounds : (Calendar.daysSince2000 t.year t.dayOfYear).natAbs ≤ 4000000 :=
    Calendar.days_since_bounds (by omega) (by omega)
  have hclock := Calendar.clock_rational hmidnight hbounds
    (by omega : 0 ≤ (t.hour : Int) ∧ (t.hour : Int) ≤ 23)
    (by omega : 0 ≤ (t.minute : Int) ∧ (t.minute : Int) ≤ 59)
  rw [← Int.cast_natCast] at hsecond
  have htotal := Calendar.elapsed_seconds_add (Calendar.daysSince2000 t.year t.dayOfYear)
    t.hour t.minute t.second
  refine ⟨_, rfl, ?_, fun hzero => ?_⟩
  · rw [seconds, htotal]
    exact Binary64.add_integers hclock hsecond (by rw [Calendar.elapsedSeconds]; omega)
  · -- a sum of zero takes its sign from the second, which is added last
    rw [seconds, htotal] at hzero
    have hsum := Binary64.add_eq_zero hclock hsecond (by exact_mod_cast hzero)
    rw [hsign, Bool.and_false] at hsum
    exact (congrArg Binary64.isNegative hsum).trans (by decide)

/-- The text of the seconds is the integer with six zeros behind the point, whatever lines come
later. -/
theorem Moment.Stamps.abs_time {t : Moment} {line : String} (h : t.Stamps line) (ht : t.Placed)
    (rest : List String) :
    (DataPoint.ofLines (line :: rest)).value? "ABSTIME" =
      some (String.ofList (Text.intChars t.seconds ++ '.' :: List.replicate 6 '0')) := by
  obtain ⟨second, hsecond, hsign, hderived⟩ := h.add_line ht
  obtain ⟨x, htext, hx, hzero⟩ := Moment.seconds_of_instant ht hsecond hsign
  rw [Decimal.fixed_of_integer hx hzero (by decide)] at htext
  exact lookup_values_from ((hderived "ABSTIME" (by decide)).trans htext) rest

/-- The seconds of a moment on its date have at most 53 bits. -/
theorem Moment.Placed.seconds_bits {t : Moment} (h : t.Placed) : t.seconds.natAbs < 2 ^ 53 := by
  have hdays := h.day_range
  obtain ⟨hyears, -, hhour, hminute, hsecond⟩ := h
  have hbounds : (Calendar.daysSince2000 t.year t.dayOfYear).natAbs ≤ 4000000 :=
    Calendar.days_since_bounds (by omega) (by omega)
  rw [Moment.seconds, Calendar.elapsedSeconds]
  omega

/-- The text reads back as the number of the seconds. -/
theorem Moment.Stamps.abs_time_number {t : Moment} {line : String} (h : t.Stamps line)
    (ht : t.Placed) (rest : List String) :
    (DataPoint.ofLines (line :: rest)).absTime?.bind Binary64.rational? =
      some (t.seconds : ℚ) := by
  obtain ⟨x, hread, hx⟩ := Decimal.read_of_integer ht.seconds_bits (by decide : 6 ≤ 200)
  rw [DataPoint.absTime?, h.abs_time ht, Option.bind_some, String.toList_ofList, hread]
  exact hx

/-! ## The next day -/

/-- The same time a day later is 86400 seconds later. -/
theorem Moment.seconds_next_day {t : Moment} (h : t.Valid) :
    t.nextDay.seconds = t.seconds + 86400 := by
  obtain ⟨hfirst, hlast⟩ := h.day_range
  rw [Moment.nextDay]
  split
  · simp only [Moment.seconds, Calendar.elapsedSeconds, Calendar.daysSince2000, Nat.cast_add,
      Nat.cast_one]
    omega
  · next hyearEnd =>
      have hday : (t.dayOfYear : Int) = Calendar.yearLength t.year := le_antisymm hlast
        (not_lt.1 hyearEnd)
      simp only [Moment.seconds, Calendar.elapsedSeconds, Nat.cast_add, Nat.cast_one,
        Calendar.days_since_of_new_year, hday]
      omega

/-- The formulas find the date of the next day too, also if its year is the one behind the last. -/
theorem Moment.Valid.next_day {t : Moment} (h : t.Valid) : t.nextDay.Placed := by
  obtain ⟨⟨hfirst, hlast⟩, ⟨hdayFirst, hdayLast⟩, hhour, hminute, hsecond⟩ := h
  rw [Moment.nextDay]
  split
  · next hwithin =>
      have hvalid : Moment.Valid { t with dayOfYear := t.dayOfYear + 1 } :=
        ⟨⟨hfirst, hlast⟩, ⟨Nat.le_add_left 1 _, by push_cast; omega⟩, hhour, hminute, hsecond⟩
      exact hvalid.placed
  · refine ⟨⟨Nat.le_add_left 1 _, by dsimp only; omega⟩, ?_, hhour, hminute, hsecond⟩
    obtain ⟨hfirstDay, hdate⟩ := Calendar.month_day_of_new_year ((t.year + 1 : ℕ) : Int)
    rw [Nat.cast_one, hfirstDay]
    exact hdate

/-- A message that begins with the stamp of a moment has the seconds counted up to it as its time,
as a text and as a number, whatever lines come later, and a message that begins with a stamp of the
same time a day later has 86400 more. -/
theorem DataPoint.abs_time_of_stamp {t : Moment} (ht : t.Valid) {line : String}
    (hline : t.Stamps line) (rest : List String) :
    let p := ofLines (line :: rest)
    p.value? "ABSTIME" = some (toString t.seconds ++ ".000000") ∧
      p.absTime?.bind Binary64.rational? = some (t.seconds : ℚ) ∧
      ∀ next, t.nextDay.Stamps next → ∀ later,
        (ofLines (next :: later)).absTime?.bind Binary64.rational? =
          some ((t.seconds + 86400 : Int) : ℚ) := by
  refine ⟨?_, hline.abs_time_number ht.placed rest, fun next hnext later => ?_⟩
  · rw [hline.abs_time ht.placed rest, ← Text.of_int_eq_to_string, String.ofList_append]
    rfl
  · rw [hnext.abs_time_number ht.next_day later, Moment.seconds_next_day ht]

/-- Seven seconds after noon of a leap day. -/
def leapDayNoon : Moment :=
  ⟨2024, 60, 12, 0, 7⟩

/-- The leap day, with a line behind it that comes too late to change the year, and the day after
it, with fewer zeros. -/
theorem abs_time_of_leap_day :
    leapDayNoon.Valid ∧ leapDayNoon.Stamps "TIME 2024-060-12:00:07" ∧
      (DataPoint.ofLines ["TIME 2024-060-12:00:07", "YEAR = 1999"]).value? "ABSTIME" =
        some "762480007.000000" ∧
      (DataPoint.ofLines ["TIME 2024-61-12:0:7"]).absTime?.bind Binary64.rational? =
        some 762566407 := by
  have hvalid : leapDayNoon.Valid :=
    ⟨by decide, by decide, by decide, by decide, by decide⟩
  have hnumeral (n zeros : Nat) :
      Text.Numeral n (List.replicate zeros '0' ++ Nat.toDigits 10 n) := ⟨zeros, rfl⟩
  have hstamp := Moment.Stamp.intro (t := leapDayNoon) (hnumeral 2024 0) (hnumeral 60 1)
    (hnumeral 12 0) (hnumeral 0 1) (hnumeral 7 1)
  have hnext := Moment.Stamp.intro (t := leapDayNoon.nextDay) (hnumeral 2024 0) (hnumeral 61 0)
    (hnumeral 12 0) (hnumeral 0 0) (hnumeral 7 0)
  have hblank : ∀ c ∈ [' '], Text.isBlank c := by
    intro c hc
    rw [List.mem_singleton.1 hc]
    rfl
  have hline : leapDayNoon.Stamps "TIME 2024-060-12:00:07" :=
    .intro hstamp hblank (List.forall_mem_nil _) (by decide +kernel)
  have hnextLine : leapDayNoon.nextDay.Stamps "TIME 2024-61-12:0:7" :=
    .intro hnext hblank (List.forall_mem_nil _) (by decide +kernel)
  have hseconds : leapDayNoon.seconds = 762480007 := by
    rw [Moment.seconds, Calendar.daysSince2000, Calendar.days_of_years_eq,
      Calendar.days_of_years_eq]
    decide
  obtain ⟨htext, -, hlater⟩ := DataPoint.abs_time_of_stamp hvalid hline ["YEAR = 1999"]
  rw [hseconds] at htext hlater
  exact ⟨hvalid, hline, htext.trans (by decide +kernel), hlater _ hnextLine []⟩

end EngineLink.Telemetry
