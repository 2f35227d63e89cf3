import EngineLink.Proofs.Calendar.Gregorian
import EngineLink.Proofs.Telemetry.Values

/-!
# The date keys of a data point

The month, the day and the seconds of a data point follow from the year, the day of the year and
the clock that it ends up with, whichever lines these come from, and they are there if some line
carries a stamp and the final texts name an instant.

Read `DataPoint.Names` first, then `DataPoint.date_keys_of_lines`; `Dated` is what holds between
two lines.
-/

namespace EngineLink.Telemetry

/-- The keys of the values that follow from an instant. -/
def derivedKeys : List String :=
  ["MONTH", "DAY", "ABSTIME"]

/-- The values that follow from the parts of a date, if they name an instant. -/
def derivedOf (values : Values) : List (String × String) :=
  match readInstant values with
  | .ok t => t.derived
  | .error _ => []

/-- Only the parts of a date matter to the instant. -/
theorem derived_of_congr {values other : Values}
    (h : ∀ key ∈ partKeys, values.lookup key = other.lookup key) :
    derivedOf values = derivedOf other := by
  simp only [partKeys, List.forall_mem_cons] at h
  obtain ⟨hyear, hday, hhour, hminute, hsecond, -⟩ := h
  simp only [derivedOf, readInstant, integerField, fieldText, hyear, hday, hhour, hminute, hsecond]

/-- Nothing but a month, a day and a time follows from an instant. -/
theorem lookup_derived_of_eq_none (values : Values) {key : String} (h : key ∉ derivedKeys) :
    (derivedOf values).lookup key = none := by
  rw [derivedOf]
  split
  · exact lookup_eq_none_iff.2 h
  · rfl

/-- A stamp of the right shape adds its parts, and then what follows from the parts held. -/
theorem add_stamp_of_shaped (values : Values) {stamp : List Char} (h : Shaped stamp) :
    ∃ parts, parts.map Prod.fst = partKeys ∧ (∀ part ∈ parts, Trimmed part.2) ∧
      (addStamp values stamp).1 =
        addAllNew (addAllNew values parts) (derivedOf (addAllNew values parts)) := by
  obtain ⟨parts, hparts, hkeys, htrimmed⟩ := stamp_fields_of_shaped h
  refine ⟨parts, hkeys, htrimmed, ?_⟩
  simp only [addStamp, hparts, derivedOf]
  cases readInstant (addAllNew values parts) with
  | error fault => rfl
  | ok t => rfl

/-- A stamp of another shape adds nothing. -/
theorem add_stamp_of_not_shaped (values : Values) {stamp : List Char} (h : ¬ Shaped stamp) :
    (addStamp values stamp).1 = values := by
  rw [addStamp]
  split
  · rfl
  · next hparts => exact absurd (shaped_of_stamp_fields hparts) h

/-- A key that has a value hides what is added under it later. -/
theorem derived_of_add {values : Values}
    (h : ∀ key ∈ partKeys, (values.lookup key).isSome) (more : List (String × String)) :
    derivedOf (addAllNew values more) = derivedOf values := by
  refine derived_of_congr fun key hkey => ?_
  obtain ⟨value, hvalue⟩ := Option.isSome_iff_exists.1 (h key hkey)
  rw [lookup_add_all_new, hvalue, Option.some_or]

/-! ## Between two lines -/

/-- What holds of the values behind lines, of which some carried a stamp of the right shape or
none did. -/
structure Dated (values : Values) (stamped : Prop) : Prop where
  trimmed : ∀ key ∈ partKeys, ∀ value, values.lookup key = some value → Trimmed value
  parts : stamped → ∀ key ∈ partKeys, (values.lookup key).isSome
  derived : stamped → ∀ key ∈ derivedKeys, values.lookup key = (derivedOf values).lookup key
  absent : ¬ stamped → ∀ key ∈ derivedKeys, values.lookup key = none

/-- Without a line there is no date. -/
theorem dated_empty : Dated [] False where
  trimmed := by simp
  parts := False.elim
  derived := False.elim
  absent _ _ _ := rfl

/-- Whether there was a stamp may be told in other words. -/
theorem Dated.congr {values : Values} {stamped other : Prop} (h : Dated values stamped)
    (hiff : stamped ↔ other) : Dated values other :=
  propext hiff ▸ h

/-- Values under other keys than those that follow from an instant do not change it. -/
theorem Dated.add {values : Values} {stamped : Prop} (h : Dated values stamped)
    {more : List (String × String)} (htrimmed : ∀ entry ∈ more, Trimmed entry.2)
    (hkeys : ∀ key ∈ derivedKeys, more.lookup key = none) :
    Dated (addAllNew values more) stamped where
  trimmed := by
    intro key hkey value hvalue
    rw [lookup_add_all_new] at hvalue
    rcases Option.or_eq_some_iff.1 hvalue with hheld | ⟨-, hmore⟩
    · exact h.trimmed key hkey value hheld
    · obtain ⟨before, after, rfl, -⟩ := List.lookup_eq_some_iff.1 hmore
      exact htrimmed (key, value) (by simp)
  parts := by
    intro hstamped key hkey
    rw [lookup_add_all_new, Option.isSome_or, h.parts hstamped key hkey, Bool.true_or]
  derived := by
    intro hstamped key hkey
    rw [lookup_add_all_new, hkeys key hkey, Option.or_none, h.derived hstamped key hkey,
      derived_of_add (h.parts hstamped)]
  absent := by
    intro hstamped key hkey
    rw [lookup_add_all_new, hkeys key hkey, Option.or_none, h.absent hstamped key hkey]

/-- What follows from an instant is no part of a date. -/
theorem not_mem_part_keys : ∀ key ∈ derivedKeys, key ∉ partKeys := by
  decide

/-- Behind a stamp of the right shape the parts of a date are there, and what follows from them. -/
theorem Dated.add_stamp {values : Values} {stamped : Prop} (h : Dated values stamped)
    {stamp : List Char} (hstamp : Shaped stamp) : Dated (addStamp values stamp).1 True := by
  obtain ⟨parts, hkeys, htrimmed, hadded⟩ := add_stamp_of_shaped values hstamp
  have hheld : Dated (addAllNew values parts) stamped :=
    h.add htrimmed fun key hkey => lookup_eq_none_iff.2 (hkeys ▸ not_mem_part_keys key hkey)
  have hparts : ∀ key ∈ partKeys, ((addAllNew values parts).lookup key).isSome := by
    intro key hkey
    rw [← hkeys] at hkey
    rw [lookup_add_all_new, Option.isSome_or, lookup_is_some_iff.2 hkey, Bool.or_true]
  rw [hadded]
  generalize addAllNew values parts = held at hheld hparts
  have hsame : ∀ key ∈ partKeys,
      (addAllNew held (derivedOf held)).lookup key = held.lookup key := by
    intro key hkey
    rw [lookup_add_all_new, lookup_derived_of_eq_none held
      fun hderived => not_mem_part_keys key hderived hkey, Option.or_none]
  refine ⟨?_, fun _ => ?_, fun _ => ?_, fun hnot => absurd trivial hnot⟩
  · intro key hkey
    rw [hsame key hkey]
    exact hheld.trimmed key hkey
  · intro key hkey
    rw [hsame key hkey]
    exact hparts key hkey
  · intro key hkey
    rw [derived_of_add hparts, lookup_add_all_new]
    by_cases hstamped : stamped
    · rw [hheld.derived hstamped key hkey, Option.or_self]
    · rw [hheld.absent hstamped key hkey, Option.none_or]

/-- A line that carries a stamp of the right shape. -/
def StampLine (line : String) : Prop :=
  ∃ stamp, Carries line stamp ∧ Shaped stamp

/-- A line carries one stamp. -/
theorem Carries.unique {line : String} {stamp other : List Char} (h : Carries line stamp)
    (hother : Carries line other) : stamp = other := by
  obtain ⟨-, hrest⟩ := h
  obtain ⟨-, hother⟩ := hother
  rw [List.append_cancel_left (hrest.symm.trans hother)]

/-- A line that defines a key by itself carries no stamp. -/
theorem Defines.not_carries {line key : String} (h : Defines line key) (stamp : List Char) :
    ¬ Carries line stamp := by
  rintro ⟨hequation, hrest⟩
  cases h with
  | equation hline => exact hequation (by simp [hline])
  | bare _ hbeginning => exact hbeginning (hrest ▸ List.prefix_append _ _)

/-- One more line, which may be the one that carries the stamp. -/
theorem Dated.add_line {values : Values} {stamped : Prop} (h : Dated values stamped)
    {line : String} (hline : ∀ key ∈ derivedKeys, ¬ Defines line key) :
    Dated (addLine values line).1 (stamped ∨ StampLine line) := by
  have hone {key value : String} (hkey : key ∉ derivedKeys) (hvalue : Trimmed value) :
      Dated (addNew values key value) stamped := by
    have hvalues : ∀ entry ∈ [(key, value)], Trimmed entry.2 := by simpa using hvalue
    refine h.add hvalues fun derived hderived => lookup_eq_none_iff.2 fun hmem => ?_
    obtain rfl : derived = key := List.mem_singleton.1 hmem
    exact hkey hderived
  rcases add_line_cases values line with
    ⟨key, value, hdefines, hvalue, hadded⟩ | ⟨stamp, hcarries, hadded⟩
  · have hstamp : ¬ StampLine line := fun ⟨stamp, hcarries, _⟩ =>
      hdefines.not_carries stamp hcarries
    rw [hadded]
    exact (hone (fun hkey => hline key hkey hdefines) hvalue).congr (by simp [hstamp])
  · rw [hadded]
    have htime : Dated (addNew values timeKey (String.ofList stamp)) stamped := by
      refine hone (by decide) ?_
      obtain ⟨-, -⟩ := hcarries
      exact trimmed_of_list _
    by_cases hshaped : Shaped stamp
    · refine (htime.add_stamp hshaped).congr ?_
      simp only [true_iff]
      exact .inr ⟨stamp, hcarries, hshaped⟩
    · rw [add_stamp_of_not_shaped _ hshaped]
      refine htime.congr (or_iff_left ?_).symm
      rintro ⟨other, hother, hotherShaped⟩
      exact hshaped (hcarries.unique hother ▸ hotherShaped)

/-- Lines in a row, of which one may carry the stamp. -/
theorem Dated.add_lines {values : Values} {stamped : Prop} (h : Dated values stamped)
    {lines : List String} (hlines : ∀ line ∈ lines, ∀ key ∈ derivedKeys, ¬ Defines line key) :
    Dated (DataPoint.valuesFrom values lines) (stamped ∨ ∃ line ∈ lines, StampLine line) := by
  induction lines generalizing values stamped with
  | nil => exact h.congr (by simp)
  | cons line rest ih =>
      rw [List.forall_mem_cons] at hlines
      exact (ih (h.add_line hlines.1) hlines.2).congr (by simp [or_assoc])

/-! ## What the final texts name -/

namespace DataPoint

/-- The value of a key as an integer of 64 bits. -/
def integer? (p : DataPoint) (key : String) : Option Int :=
  (p.value? key).bind fun text => Text.readInt64? text.toList

/-- The value of a key as a number. -/
def number? (p : DataPoint) (key : String) : Option Binary64 :=
  (p.value? key).bind fun text => (Decimal.read text.toList).toOption

/-- The texts of a data point name an instant: a year, a day, an hour and a minute in their ranges
and a finite second. -/
structure Names (p : DataPoint) (t : Instant) : Prop where
  year : p.integer? "YEAR" = some t.year
  dayOfYear : p.integer? "DOY" = some t.dayOfYear
  hour : p.integer? "HOUR" = some t.hour
  minute : p.integer? "MINUTE" = some t.minute
  second : p.number? "SECOND" = some t.second
  year_range : 1 ≤ t.year ∧ t.year ≤ 9999
  day_range : 1 ≤ t.dayOfYear ∧ t.dayOfYear ≤ 366
  hour_range : 0 ≤ t.hour ∧ t.hour ≤ 23
  minute_range : 0 ≤ t.minute ∧ t.minute ≤ 59
  finite : t.second.isFinite

/-- The values of the keys of a date have no white space around them. -/
def PartsTrimmed (p : DataPoint) : Prop :=
  ∀ key ∈ partKeys, ∀ text, p.value? key = some text → Trimmed text

/-- A part of a date is read from its value as it is. -/
theorem PartsTrimmed.field_text {p : DataPoint} (h : p.PartsTrimmed) {key : String}
    (hkey : key ∈ partKeys) : fieldText p.values key = ((p.value? key).getD "").toList := by
  rw [fieldText]
  change Text.trimChars ((p.value? key).getD "").toList = _
  cases htext : p.value? key with
  | none => rfl
  | some text => exact h key hkey text htext

/-- A part of a date is read as the integer that its value is. -/
theorem PartsTrimmed.integer_field {p : DataPoint} (h : p.PartsTrimmed) {key : String}
    (hkey : key ∈ partKeys) {n : Int} :
    integerField p.values key = .ok n ↔ p.integer? key = some n := by
  rw [integerField, h.field_text hkey, integer?]
  cases p.value? key with
  | none => simp [Text.readInt64?, Text.readInt?, Text.digitsValue?]
  | some text =>
      rw [Option.getD_some, Option.bind_some]
      cases Text.readInt64? text.toList with
      | none => simp
      | some n => simp

/-- The second is read as the number that its value is. -/
theorem PartsTrimmed.second_field {p : DataPoint} (h : p.PartsTrimmed) {x : Binary64} :
    Decimal.read (fieldText p.values "SECOND") = .ok x ↔ p.number? "SECOND" = some x := by
  rw [h.field_text (by decide), number?]
  cases p.value? "SECOND" with
  | none => simp [Decimal.read]
  | some text =>
      rw [Option.getD_some, Option.bind_some]
      cases Decimal.read text.toList with
      | error e => simp [Except.toOption]
      | ok x => simp [Except.toOption]

end DataPoint

/-- Two steps in a row succeed exactly if the first gives something on which the second succeeds. -/
theorem bind_eq_ok_iff {ε α β : Type} {x : Except ε α} {f : α → Except ε β} {b : β} :
    (x >>= f) = .ok b ↔ ∃ a, x = .ok a ∧ f a = .ok b := by
  cases x with
  | error e => simp [bind, Except.bind]
  | ok a => simp [bind, Except.bind]

/-- An instant is in range exactly if each of its parts is. -/
theorem in_range_iff {t : Instant} : t.inRange ↔ (1 ≤ t.year ∧ t.year ≤ 9999) ∧
    (1 ≤ t.dayOfYear ∧ t.dayOfYear ≤ 366) ∧ (0 ≤ t.hour ∧ t.hour ≤ 23) ∧
      (0 ≤ t.minute ∧ t.minute ≤ 59) ∧ t.second.isFinite := by
  simp only [Instant.inRange, Bool.and_eq_true, decide_eq_true_eq, Int.lt_iff_add_one_le]
  grind

/-- An instant is read exactly if each of its parts is and all are in range. -/
theorem read_instant_eq_ok_iff {values : Values} {t : Instant} :
    readInstant values = .ok t ↔ integerField values "YEAR" = .ok t.year ∧
      integerField values "DOY" = .ok t.dayOfYear ∧ integerField values "HOUR" = .ok t.hour ∧
        integerField values "MINUTE" = .ok t.minute ∧
          Decimal.read (fieldText values "SECOND") = .ok t.second ∧ t.inRange := by
  simp only [readInstant, bind_eq_ok_iff]
  constructor
  · rintro ⟨year, hyear, day, hday, hour, hhour, minute, hminute, h⟩
    split at h
    · cases h
    · next second hsecond =>
        split at h
        · next hrange =>
            cases h
            exact ⟨hyear, hday, hhour, hminute, hsecond, hrange⟩
        · cases h
  · rintro ⟨hyear, hday, hhour, hminute, hsecond, hrange⟩
    refine ⟨_, hyear, _, hday, _, hhour, _, hminute, ?_⟩
    rw [hsecond]
    exact if_pos hrange

namespace DataPoint

/-- The instant that is read is the one that the texts name. -/
theorem PartsTrimmed.read_instant {p : DataPoint} (h : p.PartsTrimmed) {t : Instant} :
    readInstant p.values = .ok t ↔ p.Names t := by
  rw [read_instant_eq_ok_iff, in_range_iff, h.integer_field (by decide),
    h.integer_field (by decide), h.integer_field (by decide), h.integer_field (by decide),
    h.second_field]
  constructor
  · rintro ⟨hyear, hday, hhour, hminute, hsecond, hyears, hdays, hhours, hminutes, hfinite⟩
    exact ⟨hyear, hday, hhour, hminute, hsecond, hyears, hdays, hhours, hminutes, hfinite⟩
  · rintro ⟨hyear, hday, hhour, hminute, hsecond, hyears, hdays, hhours, hminutes, hfinite⟩
    exact ⟨hyear, hday, hhour, hminute, hsecond, hyears, hdays, hhours, hminutes, hfinite⟩

end DataPoint

section
variable {p : DataPoint} {stamped : Prop} {key : String}

/-- A value under a key that follows from an instant tells of a stamp and of the instant. -/
theorem Dated.names_of_present (h : Dated p.values stamped) (hkey : key ∈ derivedKeys)
    (hpresent : (p.value? key).isSome) : stamped ∧ ∃ t, p.Names t := by
  have htrimmed : p.PartsTrimmed := h.trimmed
  have hstamped : stamped := by
    by_contra hnot
    rw [DataPoint.value?, h.absent hnot key hkey] at hpresent
    cases hpresent
  rw [DataPoint.value?, h.derived hstamped key hkey, derivedOf] at hpresent
  split at hpresent
  · next t ht => exact ⟨hstamped, t, htrimmed.read_instant.1 ht⟩
  · cases hpresent

/-- Behind a stamp the values that follow from the instant are those of the instant that the final
texts name. -/
theorem Dated.value_of_names (h : Dated p.values stamped) (hstamped : stamped) {t : Instant}
    (ht : p.Names t) (hkey : key ∈ derivedKeys) : p.value? key = t.derived.lookup key := by
  have htrimmed : p.PartsTrimmed := h.trimmed
  have hderived := h.derived hstamped key hkey
  rwa [derivedOf, htrimmed.read_instant.2 ht] at hderived

end

namespace DataPoint

/-- Behind lines that define no key of what follows from an instant, the values are those of a date
if one of them was a stamp. -/
theorem dated_of_lines {lines : List String}
    (h : ∀ line ∈ lines, ∀ key ∈ derivedKeys, ¬ Defines line key) :
    Dated (ofLines lines).values (∃ line ∈ lines, StampLine line) :=
  (dated_empty.add_lines h).congr (by simp)

/-- If no line defines them by itself, the month, the day and the seconds are there exactly if some
line carries a stamp of the right shape and the final texts name an instant, and they are then the
month, the day and the seconds of that instant. -/
theorem date_keys_of_lines (lines : List String)
    (h : ∀ line ∈ lines, ∀ key ∈ derivedKeys, ¬ Defines line key) :
    let p := ofLines lines
    (∀ key ∈ derivedKeys, (p.value? key).isSome ↔
        (∃ line ∈ lines, StampLine line) ∧ ∃ t, p.Names t) ∧
      ((∃ line ∈ lines, StampLine line) → ∀ t, p.Names t →
        let date := Calendar.monthDay t.year t.dayOfYear
        p.value? "MONTH" = some (Text.ofInt date.1) ∧ p.value? "DAY" = some (Text.ofInt date.2) ∧
          p.value? "ABSTIME" = some (String.ofList (Decimal.fixed 6
            (Calendar.secondsSinceEpoch t.year date.1 date.2 t.hour t.minute t.second)))) := by
  intro p
  have hdated := dated_of_lines h
  refine ⟨fun key hkey => ⟨hdated.names_of_present hkey, fun ⟨hstamped, t, ht⟩ => ?_⟩,
    fun hstamped t ht => ?_⟩
  · rw [hdated.value_of_names hstamped ht hkey, lookup_is_some_iff]
    exact hkey
  · have hvalue {key : String} (hkey : key ∈ derivedKeys) : p.value? key = t.derived.lookup key :=
      hdated.value_of_names hstamped ht hkey
    exact ⟨hvalue (by decide), hvalue (by decide), hvalue (by decide)⟩

/-- A year that is given by itself, and three stamps, of which the first has no clock. -/
def shadowedStamps : List String :=
  ["TIME 2023-060-", "YEAR = 2024", "x", "TIME 2023-061-13:45:30.250", "TIME 1999-001-00:00:00"]

/-- The year is that of the equation and the rest is that of the first stamp of the right shape. -/
theorem date_keys_of_shadowed_stamps :
    (∀ line ∈ shadowedStamps, ∀ key ∈ derivedKeys, ¬ Defines line key) ∧
      (ofLines shadowedStamps).value? "MONTH" = some "3" ∧
      (ofLines shadowedStamps).value? "DAY" = some "1" ∧
      (ofLines shadowedStamps).value? "ABSTIME" = some "762572730.250000" := by
  have hlines : ∀ line ∈ shadowedStamps, ∀ key ∈ derivedKeys, ¬ Defines line key := by
    decide +kernel
  have hcarries : Carries "TIME 2023-061-13:45:30.250"
      (Text.trimChars " 2023-061-13:45:30.250".toList) := .intro (by decide) (by decide)
  have hstamp : ∃ line ∈ shadowedStamps, StampLine line :=
    ⟨_, by decide, _, hcarries, "2023".toList, "061".toList, "13:45:30.250".toList, by decide⟩
  have hnames : (ofLines shadowedStamps).Names ⟨2024, 61, 13, 45, ⟨0x403E400000000000⟩⟩ :=
    ⟨by decide +kernel, by decide +kernel, by decide +kernel, by decide +kernel, by decide +kernel,
      by decide, by decide, by decide, by decide, by decide⟩
  obtain ⟨hmonth, hday, hseconds⟩ := (date_keys_of_lines shadowedStamps hlines).2 hstamp _ hnames
  exact ⟨hlines, hmonth.trans (by decide +kernel), hday.trans (by decide +kernel),
    hseconds.trans (by decide +kernel)⟩

/-! ## Dates of the calendar -/

/-- From 1901 to 2099 a date is given for the days 1 to 366 only. It is the date of the calendar
that has this day of the year, if the year has it, and the first of a thirteenth month if not. -/
theorem date_of_lines (lines : List String)
    (h : ∀ line ∈ lines, ∀ key ∈ derivedKeys, ¬ Defines line key) {year : Int}
    (hyear : (ofLines lines).integer? "YEAR" = some year) (hrange : 1901 ≤ year ∧ year ≤ 2099)
    {key : String} (hkey : key ∈ derivedKeys) (hpresent : ((ofLines lines).value? key).isSome) :
    ∃ n month day, (ofLines lines).integer? "DOY" = some n ∧ (1 ≤ n ∧ n ≤ 366) ∧
      (ofLines lines).value? "MONTH" = some (Text.ofInt month) ∧
      (ofLines lines).value? "DAY" = some (Text.ofInt day) ∧
      ((Calendar.IsDate year month day ∧ Calendar.dayOfYear year month day = n) ↔
        n ≤ Calendar.yearLength year) ∧
      (Calendar.yearLength year < n → month = 13 ∧ day = 1) := by
  have hdated := dated_of_lines h
  obtain ⟨hstamped, t, ht⟩ := hdated.names_of_present hkey hpresent
  have hmonth : (ofLines lines).value? "MONTH" = t.derived.lookup "MONTH" :=
    hdated.value_of_names hstamped ht (by decide)
  have hday : (ofLines lines).value? "DAY" = t.derived.lookup "DAY" :=
    hdated.value_of_names hstamped ht (by decide)
  obtain rfl : t.year = year := Option.some.inj (ht.year.symm.trans hyear)
  refine ⟨t.dayOfYear, _, _, ht.dayOfYear, ht.day_range, hmonth, hday,
    Calendar.month_day_is_date_iff hrange ht.day_range, fun hmissing => ?_⟩
  rw [Calendar.month_day_of_missing hrange ht.day_range hmissing]
  exact ⟨rfl, rfl⟩

/-- The last day of a leap year. -/
def lastLeapDay : List String :=
  ["TIME 2024-366-00:00:00"]

/-- The last day of a leap year is in December and is that day of the year. -/
theorem date_of_last_leap_day :
    (∀ line ∈ lastLeapDay, ∀ key ∈ derivedKeys, ¬ Defines line key) ∧
      (ofLines lastLeapDay).value? "MONTH" = some "12" ∧
      ∃ month day, (ofLines lastLeapDay).value? "MONTH" = some (Text.ofInt month) ∧
        (ofLines lastLeapDay).value? "DAY" = some (Text.ofInt day) ∧
        Calendar.IsDate 2024 month day ∧ Calendar.dayOfYear 2024 month day = 366 := by
  have hlines : ∀ line ∈ lastLeapDay, ∀ key ∈ derivedKeys, ¬ Defines line key := by
    decide +kernel
  have hyear : (ofLines lastLeapDay).integer? "YEAR" = some 2024 := by decide +kernel
  have hday : (ofLines lastLeapDay).integer? "DOY" = some 366 := by decide +kernel
  have hmonth : (ofLines lastLeapDay).value? "MONTH" = some "12" := by decide +kernel
  obtain ⟨n, month, day, hn, -, hmonthText, hdayText, hdate, -⟩ :=
    date_of_lines lastLeapDay hlines hyear (by decide) (by decide) (Option.isSome_of_eq_some hmonth)
  obtain rfl : n = 366 := Option.some.inj (hn.symm.trans hday)
  obtain ⟨hcalendar, hsame⟩ := hdate.2 (by decide)
  exact ⟨hlines, hmonth, month, day, hmonthText, hdayText, hcalendar, hsame⟩

/-- Day 366 of a year of 365 days. -/
def missingDay : List String :=
  ["TIME 2023-366-00:00:00"]

/-- A day that its year does not have is given a month that is none, and seconds. -/
theorem date_of_missing_day :
    (∀ line ∈ missingDay, ∀ key ∈ partKeys ++ derivedKeys, ¬ Defines line key) ∧
      (ofLines missingDay).integer? "YEAR" = some 2023 ∧
      (ofLines missingDay).integer? "DOY" = some 366 ∧ Calendar.yearLength 2023 = 365 ∧
      (ofLines missingDay).value? "MONTH" = some "13" ∧
      (ofLines missingDay).value? "DAY" = some "1" ∧
      ((ofLines missingDay).value? "ABSTIME").isSome := by
  decide +kernel

end DataPoint

end EngineLink.Telemetry
