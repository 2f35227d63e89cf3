import EngineLink.Telemetry.Vector

/-!
# Vectors of texts that are put together

A vector is read part by part: texts with separators between them hold the numbers of each in their
order, whatever the separators are, and the first text that is no vector makes the whole fail with
its error.

Read `inOrder` and `Separated` first. `fields_append` says that the fields of two texts do not meet
across a separator, and `read_vector_separated` is the result of any number of texts.
-/

namespace EngineLink

namespace Text

/-- A field in front of fields is in front of those behind them too. -/
theorem cons_field_append (field : List Char) (first later : List (List Char)) :
    consField field (first ++ later) = consField field first ++ later := by
  unfold consField
  split
  · rfl
  · rfl

section
variable {separator : Char → Bool}

/-- Behind a separator the fields are those of what follows it. -/
theorem fields_cons_separator {c : Char} (hc : separator c = true) (rest : List Char) :
    fields separator (c :: rest) = fields separator rest := by
  simp only [fields, firstField, hc, if_true]
  rfl

/-- A field does not go on behind a separator. -/
theorem first_field_append {c : Char} (hc : separator c = true) (first rest : List Char) :
    firstField separator (first ++ c :: rest) =
      ((firstField separator first).1,
        (firstField separator first).2 ++ fields separator rest) := by
  induction first with
  | nil =>
      simp only [List.nil_append, firstField, hc, if_true]
      rfl
  | cons d first ih =>
      simp only [List.cons_append, firstField, ih]
      by_cases hd : separator d
      · simp only [hd, if_true, cons_field_append]
      · simp only [hd, Bool.false_eq_true, if_false]

/-- The fields of two texts with separators between them are those of the first and then those of
the second. -/
theorem fields_append {gap : List Char} (hne : gap ≠ []) (hgap : ∀ c ∈ gap, separator c = true)
    (first rest : List Char) :
    fields separator (first ++ gap ++ rest) =
      fields separator first ++ fields separator rest := by
  obtain ⟨c, more, rfl⟩ := List.exists_cons_of_ne_nil hne
  have hmore : fields separator (more ++ rest) = fields separator rest := by
    have hall : ∀ d ∈ more, separator d = true := fun d hd => hgap d (List.mem_cons_of_mem _ hd)
    clear hne hgap
    induction more with
    | nil => rfl
    | cons d more ih =>
        rw [List.forall_mem_cons] at hall
        rw [List.cons_append, fields_cons_separator hall.1, ih hall.2]
  rw [List.append_assoc, List.cons_append, fields,
    first_field_append (hgap c List.mem_cons_self), cons_field_append, hmore]
  rfl

/-- Fields are found as well if the separators are made another kind of separators first. -/
theorem fields_map {other : Char → Bool} {f : Char → Char}
    (hsame : ∀ c, other (f c) = separator c) (hkeep : ∀ c, separator c = false → f c = c)
    (cs : List Char) : fields other (cs.map f) = fields separator cs := by
  have hfirst : firstField other (cs.map f) = firstField separator cs := by
    induction cs with
    | nil => rfl
    | cons c cs ih =>
        simp only [List.map_cons, firstField, ih, hsame]
        by_cases hc : separator c
        · simp only [hc, if_true]
        · simp only [hc, Bool.false_eq_true, if_false, hkeep c (Bool.eq_false_iff.2 hc)]
  rw [fields, hfirst, fields]

end

end Text

namespace Telemetry

/-- What two results come to: the numbers of both, or the first failure. -/
def inOrder (first second : Except Decimal.ReadError (List Binary64)) :
    Except Decimal.ReadError (List Binary64) :=
  match first, second with
  | .error e, _ => .error e
  | .ok _, .error e => .error e
  | .ok xs, .ok ys => .ok (xs ++ ys)

/-- Where no number stands in front, the result is that of what follows. -/
theorem in_order_nil (result : Except Decimal.ReadError (List Binary64)) :
    inOrder (.ok []) result = result := by
  cases result <;> rfl

/-- Results in order need no brackets. -/
theorem in_order_assoc (first second third : Except Decimal.ReadError (List Binary64)) :
    inOrder (inOrder first second) third = inOrder first (inOrder second third) := by
  cases first with
  | error e => rfl
  | ok xs =>
      cases second with
      | error e => rfl
      | ok ys =>
          cases third with
          | error e => rfl
          | ok zs => exact congrArg Except.ok (List.append_assoc xs ys zs)

/-- The numbers of words are that of the first and those of the rest, in order. -/
theorem read_numbers_cons (word : List Char) (words : List (List Char)) :
    readNumbers (word :: words) =
      inOrder ((Decimal.read word).map fun x => [x]) (readNumbers words) := by
  rw [readNumbers]
  cases Decimal.read word with
  | error e => rfl
  | ok x => cases readNumbers words <;> rfl

/-- The numbers of words behind others are those of both, in order. -/
theorem read_numbers_append (first second : List (List Char)) :
    readNumbers (first ++ second) = inOrder (readNumbers first) (readNumbers second) := by
  induction first with
  | nil => exact (in_order_nil _).symm
  | cons word first ih =>
      rw [List.cons_append, read_numbers_cons, ih, read_numbers_cons, in_order_assoc]

/-- A bracket becomes a space. -/
def unbracketed (c : Char) : Char :=
  if c = '[' ∨ c = ']' then ' ' else c

/-- The numbers of a text are those between white space once its brackets are spaces. -/
theorem read_vector_unbracketed (text : List Char) :
    readVector text = readNumbers (Text.fields Text.isBlank (text.map unbracketed)) := by
  have hsame (c : Char) : Text.isBlank (unbracketed c) = separates c := by
    by_cases hc : c = '[' ∨ c = ']'
    · rcases hc with rfl | rfl <;> rfl
    · obtain ⟨hopen, hclose⟩ := not_or.1 hc
      simp [unbracketed, separates, hopen, hclose]
  have hkeep (c : Char) (hc : separates c = false) : unbracketed c = c := by
    refine if_neg ?_
    rintro (rfl | rfl) <;> cases hc
  rw [readVector, Text.fields_map hsame hkeep]

/-- The numbers of two texts with separators between them. -/
theorem read_vector_append {gap : List Char} (hne : gap ≠ []) (hgap : ∀ c ∈ gap, separates c)
    (first rest : List Char) :
    readVector (first ++ gap ++ rest) = inOrder (readVector first) (readVector rest) := by
  rw [readVector, Text.fields_append hne hgap, read_numbers_append]
  rfl

/-- A text made of these parts, with white space or brackets between any two of them. -/
inductive Separated : List (List Char) → List Char → Prop where
  | single (part : List Char) : Separated [part] part
  | cons (part : List Char) {gap text : List Char} {parts : List (List Char)} (hne : gap ≠ [])
      (hgap : ∀ c ∈ gap, separates c) (h : Separated parts text) :
      Separated (part :: parts) (part ++ gap ++ text)

/-- A text has the numbers of its parts one after another, whatever stands between them. -/
theorem read_vector_separated {parts : List (List Char)} {text : List Char}
    (h : Separated parts text) :
    readVector text = (parts.map readVector).foldr inOrder (.ok []) := by
  induction h with
  | single part =>
      show readVector part = inOrder (readVector part) (.ok [])
      cases readVector part with
      | error e => rfl
      | ok xs => exact congrArg Except.ok (List.append_nil xs).symm
  | cons part hne hgap _ ih => rw [read_vector_append hne hgap, ih, List.map_cons, List.foldr_cons]

/-- Results in order fail if and only if one of them does. -/
theorem in_order_error_iff (results : List (Except Decimal.ReadError (List Binary64))) :
    (∃ e, results.foldr inOrder (.ok []) = .error e) ↔ ∃ e, .error e ∈ results := by
  induction results with
  | nil => simp
  | cons result results ih =>
      rw [List.foldr_cons]
      cases result with
      | error e => exact ⟨fun _ => ⟨e, List.mem_cons_self⟩, fun _ => ⟨e, rfl⟩⟩
      | ok xs =>
          have hlater : (∃ e, (.error e : Except Decimal.ReadError (List Binary64)) ∈
              .ok xs :: results) ↔ ∃ e, .error e ∈ results := by
            simp only [List.mem_cons, reduceCtorEq, false_or]
          rw [hlater, ← ih]
          cases results.foldr inOrder (.ok []) with
          | error e => exact ⟨fun _ => ⟨e, rfl⟩, fun _ => ⟨e, rfl⟩⟩
          | ok ys => exact ⟨fun h => absurd h (by simp [inOrder]), fun h => absurd h (by simp)⟩

/-- Words are read in order. -/
theorem read_numbers_eq (words : List (List Char)) :
    readNumbers words =
      (words.map fun word => (Decimal.read word).map fun x => [x]).foldr inOrder (.ok []) := by
  induction words with
  | nil => rfl
  | cons word words ih => rw [read_numbers_cons, ih, List.map_cons, List.foldr_cons]

/-- A text is no vector if and only if one of its fields is no number. -/
theorem read_vector_error_iff (text : List Char) :
    (∃ e, readVector text = .error e) ↔
      ∃ word ∈ Text.fields separates text, ∃ e, Decimal.read word = .error e := by
  have hword (word : List Char) (e : Decimal.ReadError) :
      ((Decimal.read word).map fun x => [x]) = .error e ↔ Decimal.read word = .error e := by
    cases Decimal.read word <;> simp [Except.map]
  rw [readVector, read_numbers_eq, in_order_error_iff]
  simp only [List.mem_map, hword]
  constructor
  · rintro ⟨e, word, hmem, hread⟩
    exact ⟨word, hmem, e, hread⟩
  · rintro ⟨word, hmem, e, hread⟩
    exact ⟨e, word, hmem, hread⟩

/-- The vector of two texts with separators between them, of which there is at least one, is that of
the first followed by that of the second; if the first is none its error is the result, else that of
the second. So the vector of a text depends only on its parts and not on what stands between them,
and there is none if and only if one of the fields is no number. A bracket separates as the space
does that could stand in its place. -/
theorem read_vector_of_parts :
    (∀ first gap rest : List Char, gap ≠ [] → (∀ c ∈ gap, separates c) →
      readVector (first ++ gap ++ rest) = inOrder (readVector first) (readVector rest)) ∧
      (∀ parts text other, Separated parts text → Separated parts other →
        readVector text = readVector other) ∧
      (∀ text, (∃ e, readVector text = .error e) ↔
        ∃ word ∈ Text.fields separates text, ∃ e, Decimal.read word = .error e) ∧
      ∀ text, readVector text =
        readNumbers (Text.fields Text.isBlank (text.map unbracketed)) := by
  refine ⟨fun first gap rest hne hgap => read_vector_append hne hgap first rest, ?_,
    read_vector_error_iff, read_vector_unbracketed⟩
  intro parts text other htext hother
  rw [read_vector_separated htext, read_vector_separated hother]

/-- Brackets that are not balanced, white space in their place, and a part that is no number. -/
theorem read_vector_of_brackets :
    readVector "1][-2".toList = readVector "1\t\u2003-2".toList ∧
      (readVector "1][-2".toList).toOption = some [⟨0x3FF0000000000000⟩, ⟨0xC000000000000000⟩] ∧
      readVector "[1 x]] [2".toList =
        inOrder (readVector "[1 x".toList) (readVector "2".toList) ∧
      ∃ e, readVector "[1 x]] [2".toList = .error e := by
  obtain ⟨happend, hsame, herror, -⟩ := read_vector_of_parts
  have hjoined {gap : List Char} (hne : gap ≠ []) (hgap : ∀ c ∈ gap, separates c) :
      Separated [['1'], ['-', '2']] (['1'] ++ gap ++ ['-', '2']) :=
    .cons ['1'] hne hgap (.single ['-', '2'])
  have hbrackets : Separated [['1'], ['-', '2']] "1][-2".toList :=
    @hjoined [']', '['] nofun (List.all_eq_true.1 rfl)
  have hspaces : Separated [['1'], ['-', '2']] "1\t\u2003-2".toList :=
    @hjoined ['\t', '\u2003'] nofun (List.all_eq_true.1 rfl)
  refine ⟨hsame _ _ _ hbrackets hspaces, by decide +kernel, ?_, ?_⟩
  · exact happend "[1 x".toList "]] [".toList "2".toList nofun (List.all_eq_true.1 rfl)
  · exact (herror _).2 ⟨['x'], by decide, .invalid, rfl⟩

end Telemetry

end EngineLink
