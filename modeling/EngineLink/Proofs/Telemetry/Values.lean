import EngineLink.Telemetry.DataPoint
import Mathlib.Data.List.DropRight

/-!
# What a line adds to the named values

The key that a line defines or the stamp that it carries, the texts that have the shape of a
stamp, and the look-up of a key after values were added: a key that has a value keeps it.

Read `Defines`, `Carries` and `Shaped` first, then `add_line_cases`.
-/

namespace EngineLink.Text

/-- Trimming leaves no white space to trim. -/
theorem trim_chars_idem (cs : List Char) : trimChars (trimChars cs) = trimChars cs := by
  have hleft : trimLeft (trimChars cs) = trimChars cs := by
    obtain ⟨later, hlater⟩ := List.rdropWhile_prefix isBlank (trimLeft cs)
    change trimChars cs ++ later = List.dropWhile isBlank cs at hlater
    have hfirst := List.head?_dropWhile_not isBlank cs
    cases hkept : trimChars cs with
    | nil => rfl
    | cons c rest =>
        rw [← hlater, hkept] at hfirst
        exact List.dropWhile_cons_of_neg (by simpa using hfirst)
  rw [trimChars, hleft]
  exact List.rdropWhile_idempotent isBlank (trimLeft cs)

end EngineLink.Text

namespace EngineLink.Telemetry

/-! ## Cutting a text at a mark -/

/-- A text is not split exactly if it does not have the mark. -/
theorem split_first_eq_none_iff {mark : Char} {text : List Char} :
    splitFirst? mark text = none ↔ mark ∉ text := by
  induction text with
  | nil => simp [splitFirst?]
  | cons c rest ih =>
      rw [splitFirst?, List.mem_cons, not_or, ← ih]
      split
      · next h => simp [h]
      · next h => simp [Ne.symm h]

/-- A character that is not the mark stands in front of the first part. -/
theorem split_first_cons_iff {mark c b : Char} {rest before after : List Char} (h : c ≠ mark) :
    splitFirst? mark (c :: rest) = some (b :: before, after) ↔
      c = b ∧ splitFirst? mark rest = some (before, after) := by
  rw [splitFirst?, if_neg h]
  cases splitFirst? mark rest with
  | none => simp
  | some parts => simp [Prod.ext_iff, and_assoc]

/-- A text is cut at its first mark. -/
theorem split_first_eq_some_iff {mark : Char} {text before after : List Char} :
    splitFirst? mark text = some (before, after) ↔
      text = before ++ mark :: after ∧ mark ∉ before := by
  induction text generalizing before with
  | nil => simp [splitFirst?]
  | cons c rest ih =>
      by_cases h : c = mark
      · subst h
        rw [splitFirst?, if_pos rfl]
        cases before with
        | nil => simp [eq_comm]
        | cons b before => simp +contextual
      · cases before with
        | nil => simp [splitFirst?, h]
        | cons b before =>
            rw [split_first_cons_iff h, ih, List.cons_append, List.cons.injEq, and_assoc,
              List.mem_cons, not_or]
            constructor
            · rintro ⟨rfl, hrest, hmark⟩
              exact ⟨rfl, hrest, Ne.symm h, hmark⟩
            · rintro ⟨rfl, hrest, -, hmark⟩
              exact ⟨rfl, hrest, hmark⟩

/-- A text has something behind a beginning exactly if it is the beginning with that behind. -/
theorem behind_eq_some_iff {beginning text rest : List Char} :
    behind? beginning text = some rest ↔ text = beginning ++ rest := by
  rw [behind?]
  constructor
  · intro h
    split at h
    · next hprefix =>
        obtain ⟨later, rfl⟩ := List.isPrefixOf_iff_prefix.1 hprefix
        rw [List.drop_left, Option.some.injEq] at h
        rw [h]
    · cases h
  · rintro rfl
    rw [if_pos (List.isPrefixOf_iff_prefix.2 (List.prefix_append _ _)), List.drop_left]

/-! ## Looking up a key behind an addition -/

/-- A key has a value exactly if it is among the keys. -/
theorem lookup_is_some_iff {values : Values} {key : String} :
    (values.lookup key).isSome ↔ key ∈ values.map Prod.fst := by
  rw [List.lookup_isSome_iff, List.mem_map]
  simp only [beq_iff_eq, @eq_comm _ key]

/-- A key has no value exactly if it is not among the keys. -/
theorem lookup_eq_none_iff {values : Values} {key : String} :
    values.lookup key = none ↔ key ∉ values.map Prod.fst := by
  rw [← lookup_is_some_iff, Option.not_isSome_iff_eq_none]

/-- A new entry has its value only if its key has none. -/
theorem lookup_add_new (values : Values) (key value k : String) :
    (addNew values key value).lookup k = (values.lookup k).or ([(key, value)].lookup k) := by
  rw [addNew]
  split
  · next h =>
      by_cases hk : k = key
      · obtain ⟨held, hheld⟩ := Option.isSome_iff_exists.1 h
        rw [hk, hheld, Option.some_or]
      · have hother : [(key, value)].lookup k = none :=
          lookup_eq_none_iff.2 fun hmem => hk (List.mem_singleton.1 hmem)
        rw [hother, Option.or_none]
  · exact List.lookup_append

/-- A key keeps the value that it has and takes the first one added otherwise. -/
theorem lookup_add_all_new (values : Values) (more : List (String × String)) (k : String) :
    (addAllNew values more).lookup k = (values.lookup k).or (more.lookup k) := by
  induction more generalizing values with
  | nil => exact (Option.or_none).symm
  | cons entry rest ih =>
      change (addAllNew (addNew values entry.1 entry.2) rest).lookup k = _
      rw [ih, lookup_add_new, Option.or_assoc, ← List.lookup_append]
      rfl

/-! ## Keys and stamps of lines -/

/-- A line defines a key by itself: that in front of its first `=`, or, if it has none and does not
begin as a line with a stamp does, its whole text. -/
inductive Defines (line : String) : String → Prop
  | equation {key value : List Char} (h : line.toList = key ++ '=' :: value) (hkey : '=' ∉ key) :
      Defines line (String.ofList (Text.trimChars key))
  | bare (h : '=' ∉ line.toList) (hbeginning : ¬ timeKey.toList <+: line.toList) :
      Defines line (Text.trim line)

/-- A line without `=` carries the stamp that it has behind its beginning. -/
inductive Carries (line : String) : List Char → Prop
  | intro {rest : List Char} (h : '=' ∉ line.toList)
      (hrest : line.toList = timeKey.toList ++ rest) : Carries line (Text.trimChars rest)

/-- A stamp has two `-` and two `:` behind them. -/
def Shaped (stamp : List Char) : Prop :=
  ∃ year day clock, stamp = year ++ '-' :: (day ++ '-' :: clock) ∧ '-' ∉ year ∧ '-' ∉ day ∧
    2 ≤ clock.count ':'

/-- The key that a line defines, if it does. -/
def ownKey? (line : String) : Option String :=
  match splitFirst? '=' line.toList with
  | some (key, _) => some (String.ofList (Text.trimChars key))
  | none => if timeKey.toList <+: line.toList then none else some (Text.trim line)

/-- A line defines exactly its own key. -/
theorem defines_iff {line key : String} : Defines line key ↔ ownKey? line = some key := by
  rw [ownKey?]
  constructor
  · intro h
    cases h with
    | equation h hkey => rw [split_first_eq_some_iff.2 ⟨h, hkey⟩]
    | bare h hbeginning => rw [split_first_eq_none_iff.2 h, if_neg hbeginning]
  · intro h
    split at h
    · next before after hsplit =>
        obtain ⟨hline, hbefore⟩ := split_first_eq_some_iff.1 hsplit
        exact Option.some.inj h ▸ .equation hline hbefore
    · next hsplit =>
        split at h
        · cases h
        · next hbeginning =>
            exact Option.some.inj h ▸ .bare (split_first_eq_none_iff.1 hsplit) hbeginning

instance (line key : String) : Decidable (Defines line key) :=
  decidable_of_iff _ defines_iff.symm

/-- A text without white space around it. -/
def Trimmed (text : String) : Prop :=
  Text.trimChars text.toList = text.toList

instance (text : String) : Decidable (Trimmed text) :=
  inferInstanceAs (Decidable (_ = _))

/-- A text that was trimmed is without white space around it. -/
theorem trimmed_of_list (cs : List Char) : Trimmed (String.ofList (Text.trimChars cs)) := by
  rw [Trimmed, String.toList_ofList, Text.trim_chars_idem]

/-- A line adds one value under the key that it defines, or what its stamp adds. -/
theorem add_line_cases (values : Values) (line : String) :
    (∃ key value, Defines line key ∧ Trimmed value ∧
        (addLine values line).1 = addNew values key value) ∨
      ∃ stamp, Carries line stamp ∧ (addLine values line).1 =
        (addStamp (addNew values timeKey (String.ofList stamp)) stamp).1 := by
  rw [addLine]
  split
  · next key value hsplit =>
      obtain ⟨hline, hkey⟩ := split_first_eq_some_iff.1 hsplit
      exact .inl ⟨_, _, .equation hline hkey, trimmed_of_list value, rfl⟩
  · next hsplit =>
      have hequation := split_first_eq_none_iff.1 hsplit
      split
      · next rest hrest =>
          exact .inr ⟨_, .intro hequation (behind_eq_some_iff.1 hrest), rfl⟩
      · next hrest =>
          refine .inl ⟨_, _, .bare hequation ?_, by decide, rfl⟩
          rintro ⟨rest, hbeginning⟩
          rw [behind_eq_some_iff.2 hbeginning.symm] at hrest
          cases hrest

/-! ## The parts of a stamp -/

/-- The keys of the parts of a stamp. -/
def partKeys : List String :=
  ["YEAR", "DOY", "HOUR", "MINUTE", "SECOND"]

/-- A stamp of the right shape has a part for each key. -/
theorem stamp_fields_of_shaped {stamp : List Char} (h : Shaped stamp) :
    ∃ parts, stampFields stamp = .ok parts ∧ parts.map Prod.fst = partKeys ∧
      ∀ part ∈ parts, Trimmed part.2 := by
  obtain ⟨year, day, clock, rfl, hyear, hday, hclock⟩ := h
  obtain ⟨hour, rest, rfl, hhour⟩ :=
    List.eq_append_cons_of_mem (List.count_pos_iff.1 (by omega : 0 < clock.count ':'))
  rw [List.count_append, List.count_eq_zero.2 hhour, List.count_cons_self] at hclock
  obtain ⟨minute, second, rfl, hminute⟩ :=
    List.eq_append_cons_of_mem (List.count_pos_iff.1 (by omega : 0 < rest.count ':'))
  simp only [stampFields, split_first_eq_some_iff.2 ⟨rfl, hyear⟩,
    split_first_eq_some_iff.2 ⟨rfl, hday⟩, split_first_eq_some_iff.2 ⟨rfl, hhour⟩,
    split_first_eq_some_iff.2 ⟨rfl, hminute⟩]
  refine ⟨_, rfl, rfl, ?_⟩
  simp [trimmed_of_list]

/-- A text that has parts has the shape of a stamp. -/
theorem shaped_of_stamp_fields {stamp : List Char} {parts : List (String × String)}
    (h : stampFields stamp = .ok parts) : Shaped stamp := by
  unfold stampFields at h
  split at h
  · cases h
  rename_i year rest hyear
  split at h
  · cases h
  rename_i day clock hday
  split at h
  · cases h
  rename_i hour rest' hhour
  split at h
  · cases h
  rename_i minute second hminute
  obtain ⟨rfl, hyearMarks⟩ := split_first_eq_some_iff.1 hyear
  obtain ⟨rfl, hdayMarks⟩ := split_first_eq_some_iff.1 hday
  obtain ⟨rfl, -⟩ := split_first_eq_some_iff.1 hhour
  obtain ⟨rfl, -⟩ := split_first_eq_some_iff.1 hminute
  refine ⟨year, day, _, rfl, hyearMarks, hdayMarks, ?_⟩
  simp only [List.count_append, List.count_cons_self]
  omega

end EngineLink.Telemetry
