import EngineLink.Proofs.Telemetry.Dates

/-!
# First occurrences

The values behind lines are the values before them with further entries added, each under a key
that one of the lines introduces. So a key keeps the value that it has, whatever lines come later,
and later lines bring only keys of their own.

Read `Gives` and `Introduces` first, then `values_from_eq_add`.
-/

namespace EngineLink.Telemetry

/-- The keys that have a value behind a line in any case: the one that the line defines, that of
the stamp that it carries, and those of the parts of a stamp of the right shape. -/
inductive Gives (line : String) : String → Prop
  | own {key : String} (h : Defines line key) : Gives line key
  | stamp {stamp : List Char} (h : Carries line stamp) : Gives line timeKey
  | part {key : String} (h : StampLine line) (hkey : key ∈ partKeys) : Gives line key

/-- A line can introduce the keys that it gives, and those that follow from an instant if it
carries a stamp of the right shape. -/
def Introduces (line key : String) : Prop :=
  Gives line key ∨ (StampLine line ∧ key ∈ derivedKeys)

/-- Entries that are new are added one part of them behind the other. -/
theorem add_all_new_append (values : Values) (first second : List (String × String)) :
    addAllNew values (first ++ second) = addAllNew (addAllNew values first) second :=
  List.foldl_append

/-- Only the keys of a month, a day and a time follow from values. -/
theorem keys_derived_of_subset (values : Values) :
    ∀ key ∈ (derivedOf values).map Prod.fst, key ∈ derivedKeys := by
  intro key hkey
  by_contra hnot
  exact lookup_eq_none_iff.1 (lookup_derived_of_eq_none values hnot) hkey

/-- A stamp adds nothing, or its parts and what follows from the parts then held. -/
theorem add_stamp_eq_add (values : Values) (stamp : List Char) :
    ∃ more, (addStamp values stamp).1 = addAllNew values more ∧
      (∀ key ∈ more.map Prod.fst, Shaped stamp ∧ key ∈ partKeys ++ derivedKeys) ∧
      (Shaped stamp → ∀ key ∈ partKeys, key ∈ more.map Prod.fst) := by
  by_cases hshaped : Shaped stamp
  · obtain ⟨parts, hkeys, -, hadded⟩ := add_stamp_of_shaped values hshaped
    refine ⟨parts ++ derivedOf (addAllNew values parts), ?_, fun key hkey => ⟨hshaped, ?_⟩,
      fun _ key hkey => ?_⟩
    · rw [hadded, add_all_new_append]
    · rw [List.map_append, hkeys, List.mem_append] at hkey
      exact List.mem_append.2 (hkey.imp_right (keys_derived_of_subset _ key))
    · rw [List.map_append, hkeys]
      exact List.mem_append_left _ hkey
  · exact ⟨[], add_stamp_of_not_shaped values hshaped, by simp, fun h => absurd h hshaped⟩

/-- A line adds entries under keys that it introduces, among them all that it gives. -/
theorem add_line_eq_add (values : Values) (line : String) :
    ∃ more, (addLine values line).1 = addAllNew values more ∧
      (∀ key ∈ more.map Prod.fst, Introduces line key) ∧
      ∀ key, Gives line key → key ∈ more.map Prod.fst := by
  rcases add_line_cases values line with
    ⟨own, value, hdefines, -, hadded⟩ | ⟨stamp, hcarries, hadded⟩
  · refine ⟨[(own, value)], hadded, ?_, fun key hgives => ?_⟩
    · simpa using .inl (.own hdefines)
    · cases hgives with
      | own hother =>
          rw [defines_iff] at hdefines hother
          simpa using Option.some.inj (hother.symm.trans hdefines)
      | stamp hcarries => exact absurd hcarries (hdefines.not_carries _)
      | part hstamp =>
          obtain ⟨stamp, hcarries, -⟩ := hstamp
          exact absurd hcarries (hdefines.not_carries stamp)
  · obtain ⟨more, hmore, hkeys, hparts⟩ :=
      add_stamp_eq_add (addNew values timeKey (String.ofList stamp)) stamp
    refine ⟨(timeKey, String.ofList stamp) :: more, hadded.trans hmore, fun key hkey => ?_,
      fun key hgives => ?_⟩
    · rcases List.mem_cons.1 hkey with rfl | hkey
      · exact .inl (.stamp hcarries)
      · obtain ⟨hshaped, hkey⟩ := hkeys key hkey
        have hstamp : StampLine line := ⟨stamp, hcarries, hshaped⟩
        rcases List.mem_append.1 hkey with hpart | hderived
        · exact .inl (.part hstamp hpart)
        · exact .inr ⟨hstamp, hderived⟩
    · cases hgives with
      | own hdefines => exact absurd hcarries (hdefines.not_carries stamp)
      | stamp => exact List.mem_cons_self
      | part hstamp hkey =>
          obtain ⟨other, hother, hshaped⟩ := hstamp
          obtain rfl := hcarries.unique hother
          exact List.mem_cons_of_mem _ (hparts hshaped key hkey)

/-- Lines in a row add entries under keys that one of them introduces, among them all that one of
them gives. -/
theorem values_from_eq_add (values : Values) (lines : List String) :
    ∃ more, DataPoint.valuesFrom values lines = addAllNew values more ∧
      (∀ key ∈ more.map Prod.fst, ∃ line ∈ lines, Introduces line key) ∧
      ∀ line ∈ lines, ∀ key, Gives line key → key ∈ more.map Prod.fst := by
  induction lines generalizing values with
  | nil => exact ⟨[], rfl, by simp, by simp⟩
  | cons line rest ih =>
      obtain ⟨first, hfirst, hfirstKeys, hfirstGiven⟩ := add_line_eq_add values line
      obtain ⟨later, hlater, hlaterKeys, hlaterGiven⟩ := ih (addLine values line).1
      refine ⟨first ++ later, ?_, fun key hkey => ?_, ?_⟩
      · rw [add_all_new_append, ← hfirst, ← hlater]
        rfl
      · rw [List.map_append, List.mem_append] at hkey
        rcases hkey with hkey | hkey
        · exact ⟨line, List.mem_cons_self, hfirstKeys key hkey⟩
        · obtain ⟨other, hother, hintroduces⟩ := hlaterKeys key hkey
          exact ⟨other, List.mem_cons_of_mem _ hother, hintroduces⟩
      · simp only [List.forall_mem_cons, List.map_append, List.mem_append]
        exact ⟨fun key hgives => .inl (hfirstGiven key hgives),
          fun other hother key hgives => .inr (hlaterGiven other hother key hgives)⟩

/-- A key that has a value keeps it behind further lines. -/
theorem lookup_values_from {values : Values} {key value : String}
    (h : values.lookup key = some value) (lines : List String) :
    (DataPoint.valuesFrom values lines).lookup key = some value := by
  obtain ⟨more, hmore, -, -⟩ := values_from_eq_add values lines
  rw [hmore, lookup_add_all_new, h, Option.some_or]

namespace DataPoint

/-- The values behind lines are those behind the first part of them, with the second part read on.
-/
theorem values_from_append (values : Values) (first second : List String) :
    valuesFrom values (first ++ second) = valuesFrom (valuesFrom values first) second :=
  List.foldl_append

/-- Later lines change no value that the earlier ones give, bring only keys that one of them
introduces, and leave every key with a value that a line gives; the lines are kept as they are. -/
theorem values_of_append (first second : List String) :
    (∀ key value, (ofLines first).value? key = some value →
        (ofLines (first ++ second)).value? key = some value) ∧
      (∀ key, (ofLines first).value? key = none →
        ((ofLines (first ++ second)).value? key).isSome → ∃ line ∈ second, Introduces line key) ∧
      (∀ line ∈ first ++ second, ∀ key, Gives line key →
        ((ofLines (first ++ second)).value? key).isSome) ∧
      (ofLines (first ++ second)).lines = first ++ second := by
  have hvalues : (ofLines (first ++ second)).values = valuesFrom (ofLines first).values second :=
    values_from_append [] first second
  refine ⟨fun key value hvalue => ?_, fun key hmissing hpresent => ?_,
    fun line hline key hgives => ?_, rfl⟩
  · rw [value?, hvalues]
    exact lookup_values_from hvalue second
  · obtain ⟨more, hmore, hkeys, -⟩ := values_from_eq_add (ofLines first).values second
    rw [value?] at hmissing
    rw [value?, hvalues, hmore, lookup_add_all_new, hmissing, Option.none_or,
      lookup_is_some_iff] at hpresent
    exact hkeys key hpresent
  · obtain ⟨more, hmore, -, hgiven⟩ := values_from_eq_add [] (first ++ second)
    change ((valuesFrom [] (first ++ second)).lookup key).isSome
    rw [hmore, lookup_add_all_new, List.lookup_nil, Option.none_or, lookup_is_some_iff]
    exact hgiven line hline key hgives

end DataPoint

end EngineLink.Telemetry
