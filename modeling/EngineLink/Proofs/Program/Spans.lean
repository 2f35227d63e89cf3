import EngineLink.Program.Sampler
import EngineLink.Proofs.Text.Numerals

/-!
# Spans of time that a user writes

A written span is an optional plus sign, digits and the suffix of a unit, with any white space
around it. These texts are accepted if the number is positive and has at most 64 bits, and no other
text is.

Read `Duration.Written` first. A text is a written span in one way only, which is the one that
`Duration.unit` cuts it in.
-/

namespace EngineLink

namespace Text

/-! ## Reading numbers -/

/-- A character with the value of a digit is one. -/
theorem is_digit_of_digit_value {c : Char} {d : Nat} (h : digitValue? c = some d) : c.isDigit := by
  unfold digitValue? at h
  split at h
  · next hrange => simpa [Char.isDigit, UInt32.le_iff_toNat_le] using hrange
  · cases h

/-- A text that has a value has only digits. -/
theorem is_digit_of_digits_value_from {cs : List Char} {acc n : Nat}
    (h : digitsValueFrom? acc cs = some n) : ∀ c ∈ cs, c.isDigit := by
  induction cs generalizing acc with
  | nil => simp
  | cons c rest ih =>
      rw [digitsValueFrom?] at h
      split at h
      · next d hd => exact List.forall_mem_cons.2 ⟨is_digit_of_digit_value hd, ih h⟩
      · cases h

/-- The texts that have a value. -/
theorem digits_value_eq_some_iff {cs : List Char} {n : Nat} :
    digitsValue? cs = some n ↔
      cs ≠ [] ∧ (∀ c ∈ cs, c.isDigit) ∧ Nat.ofDigitChars 10 cs 0 = n := by
  unfold digitsValue?
  split
  · next hnil => simp [hnil]
  · next hne =>
      constructor
      · intro h
        have hdigits := is_digit_of_digits_value_from h
        rw [digits_value_from_eq hdigits] at h
        exact ⟨hne, hdigits, Option.some.inj h⟩
      · rintro ⟨-, hdigits, rfl⟩
        exact digits_value_from_eq hdigits 0

/-- An optional plus sign. -/
def plusSign (plus : Bool) : List Char :=
  if plus then ['+'] else []

/-- The texts that are read as a bounded number. -/
theorem read_nat_eq_some_iff {top n : Nat} {cs : List Char} :
    readNat? top cs = some n ↔ ∃ plus digits, cs = plusSign plus ++ digits ∧ digits ≠ [] ∧
      (∀ c ∈ digits, c.isDigit) ∧ Nat.ofDigitChars 10 digits 0 = n ∧ n ≤ top := by
  have hread (body : List Char) : (digitsValue? body).filter (· ≤ top) = some n ↔
      body ≠ [] ∧ (∀ c ∈ body, c.isDigit) ∧ Nat.ofDigitChars 10 body 0 = n ∧ n ≤ top := by
    rw [Option.filter_eq_some_iff, digits_value_eq_some_iff, decide_eq_true_eq]
    simp only [and_assoc]
  unfold readNat?
  split
  · next rest =>
      rw [hread]
      constructor
      · exact fun h => ⟨true, rest, rfl, h⟩
      · rintro ⟨plus, digits, hcs, h⟩
        cases plus with
        | true =>
            obtain rfl : rest = digits := (List.cons.inj hcs).2
            exact h
        | false =>
            -- the plus sign is no digit
            obtain rfl : '+' :: rest = digits := hcs
            exact absurd (h.2.1 '+' List.mem_cons_self) (by decide)
  · next hnone =>
      rw [hread]
      constructor
      · exact fun h => ⟨false, cs, rfl, h⟩
      · rintro ⟨plus, digits, rfl, h⟩
        cases plus with
        | true => exact absurd rfl (hnone digits)
        | false => exact h

/-- Trimming takes off white space only. -/
theorem padded_trim_chars (cs : List Char) : ∃ before after, (∀ c ∈ before, isBlank c) ∧
    (∀ c ∈ after, isBlank c) ∧ cs = before ++ (trimChars cs ++ after) := by
  refine ⟨cs.takeWhile isBlank, ((trimLeft cs).reverse.takeWhile isBlank).reverse,
    fun c hc => List.mem_takeWhile_imp hc,
    fun c hc => List.mem_takeWhile_imp (List.mem_reverse.1 hc), ?_⟩
  rw [trimChars, trimRight, ← List.reverse_append, List.takeWhile_append_dropWhile,
    List.reverse_reverse, trimLeft, List.takeWhile_append_dropWhile]

end Text

namespace Duration

/-! ## Written spans -/

/-- What a written span ends with. -/
inductive Suffix where
  | millis
  | seconds
  | none
  deriving DecidableEq

namespace Suffix

/-- The characters of a suffix. -/
def chars : Suffix → List Char
  | millis => ['m', 's']
  | seconds => ['s']
  | none => []

/-- So many units as whole seconds and nanoseconds. -/
def span (n : Nat) : Suffix → Duration
  | millis => ⟨n / 1000, n % 1000 * 10 ^ 6⟩
  | seconds | none => ⟨n, 0⟩

end Suffix

/-- A written span: an optional plus sign, digits and a suffix. -/
structure Written where
  plus : Bool
  digits : List Char
  suffix : Suffix
  digits_ne_nil : digits ≠ []
  is_digit : ∀ c ∈ digits, c.isDigit

namespace Written

/-- The text of a written span. -/
def chars (w : Written) : List Char :=
  Text.plusSign w.plus ++ w.digits ++ w.suffix.chars

/-- The number of units. -/
def value (w : Written) : Nat :=
  Nat.ofDigitChars 10 w.digits 0

/-- The span that is meant. -/
def span (w : Written) : Duration :=
  w.suffix.span w.value

end Written

/-- A text has an ending exactly if it is something with the ending behind. -/
theorem before_eq_some_iff {ending text front : List Char} :
    before? ending text = some front ↔ text = front ++ ending := by
  unfold before?
  split
  · next h =>
      obtain ⟨start, rfl⟩ := List.isSuffixOf_iff_suffix.1 h
      simp [eq_comm]
  · next h =>
      constructor
      · nofun
      · rintro rfl
        exact absurd (List.isSuffixOf_iff_suffix.2 (List.suffix_append front ending)) h

/-- A text is cut in front of its suffix. -/
theorem unit_cases (text : List Char) :
    ∃ suffix : Suffix, text = (unit text).1 ++ suffix.chars ∧
      ∀ n, (unit text).2 n = suffix.span n := by
  unfold unit
  split
  · next front hmillis => exact ⟨.millis, before_eq_some_iff.1 hmillis, fun _ => rfl⟩
  · split
    · next front hseconds => exact ⟨.seconds, before_eq_some_iff.1 hseconds, fun _ => rfl⟩
    · exact ⟨.none, (List.append_nil text).symm, fun _ => rfl⟩

/-- A text whose last character is a digit does not end with a letter. -/
theorem before_letter_eq_none {text : List Char} (hlast : ∀ c ∈ text.getLast?, c.isDigit)
    {letter : Char} (hletter : letter.isDigit = false) : before? [letter] text = none := by
  rw [Option.eq_none_iff_forall_ne_some]
  intro front hfront
  rw [before_eq_some_iff.1 hfront] at hlast
  have hdigit := hlast letter List.getLast?_concat
  rw [hletter] at hdigit
  cases hdigit

/-- A text is cut behind its last digit. -/
theorem unit_of_digits {body : List Char} (hlast : ∀ c ∈ body.getLast?, c.isDigit)
    (suffix : Suffix) : (unit (body ++ suffix.chars)).1 = body ∧
      ∀ n, (unit (body ++ suffix.chars)).2 n = suffix.span n := by
  cases suffix with
  | millis =>
      have hbefore : before? ['m', 's'] (body ++ ['m', 's']) = some body :=
        before_eq_some_iff.2 rfl
      rw [Suffix.chars, unit, hbefore]
      exact ⟨rfl, fun _ => rfl⟩
  | seconds =>
      have hbefore : before? ['s'] (body ++ ['s']) = some body := before_eq_some_iff.2 rfl
      have hnone : before? ['m', 's'] (body ++ ['s']) = none := by
        rw [Option.eq_none_iff_forall_ne_some]
        intro front hfront
        have htext : body ++ ['s'] = (front ++ ['m']) ++ ['s'] := by
          rw [before_eq_some_iff.1 hfront, List.append_assoc]
          rfl
        have hbody := before_letter_eq_none hlast (by decide : 'm'.isDigit = false)
        rw [before_eq_some_iff.2 (List.append_cancel_right htext)] at hbody
        cases hbody
      rw [Suffix.chars, unit, hnone, hbefore]
      exact ⟨rfl, fun _ => rfl⟩
  | none =>
      have hseconds := before_letter_eq_none hlast (by decide : 's'.isDigit = false)
      have hmillis : before? ['m', 's'] body = none := by
        rw [Option.eq_none_iff_forall_ne_some] at hseconds ⊢
        intro front hfront
        refine hseconds (front ++ ['m']) (before_eq_some_iff.2 ?_)
        rw [before_eq_some_iff.1 hfront, List.append_assoc]
        rfl
      rw [Suffix.chars, List.append_nil, unit, hmillis, hseconds]
      exact ⟨rfl, fun _ => rfl⟩

namespace Written

variable (w : Written)

/-- In front of the suffix of a written span stands a digit. -/
theorem is_digit_of_last : ∀ c ∈ (Text.plusSign w.plus ++ w.digits).getLast?, c.isDigit := by
  rw [List.getLast?_append_of_ne_nil _ w.digits_ne_nil]
  exact fun c hc => w.is_digit c (List.mem_of_getLast? hc)

/-- The suffix of a written span is told from its digits, and says what they count. -/
theorem unit_chars : (unit w.chars).1 = Text.plusSign w.plus ++ w.digits ∧
    ∀ n, (unit w.chars).2 n = w.suffix.span n :=
  unit_of_digits w.is_digit_of_last w.suffix

/-- There is no white space in a written span. -/
theorem not_blank : ∀ c ∈ w.chars, Text.isBlank c = false := by
  intro c hc
  refine Text.not_blank_of_visible ?_
  rw [chars, List.mem_append, List.mem_append] at hc
  rcases hc with (hplus | hdigit) | hsuffix
  · unfold Text.plusSign at hplus
    split at hplus
    · rw [List.mem_singleton.1 hplus]
      decide
    · cases hplus
  · have hrange := Text.to_nat_of_is_digit (w.is_digit c hdigit)
    omega
  · have hvisible : w.suffix.chars.all fun c => 33 ≤ c.toNat ∧ c.toNat ≤ 126 := by
      cases w.suffix <;> decide
    exact of_decide_eq_true (List.all_eq_true.1 hvisible c hsuffix)

/-- A text is a written span in one way at most. -/
theorem eq_of_chars {v : Written} (h : w.chars = v.chars) : w = v := by
  have hbody : Text.plusSign w.plus ++ w.digits = Text.plusSign v.plus ++ v.digits := by
    rw [← w.unit_chars.1, ← v.unit_chars.1, h]
  rw [chars, chars, hbody] at h
  have hsuffix : w.suffix = v.suffix := by
    have hchars := List.append_cancel_left h
    revert hchars
    cases w.suffix <;> cases v.suffix <;> decide
  obtain ⟨plus, digits, suffix, hne, hdigits⟩ := w
  obtain ⟨plus', digits', suffix', hne', hother⟩ := v
  dsimp only at hbody hsuffix
  subst hsuffix
  -- a sign is no digit, so that both have it or none has
  cases plus <;> cases plus' <;> simp only [Text.plusSign, if_true, Bool.false_eq_true, if_false,
    List.nil_append, List.singleton_append] at hbody
  · subst hbody; rfl
  · exact absurd (hdigits '+' (hbody ▸ List.mem_cons_self)) (by decide)
  · exact absurd (hother '+' (hbody ▸ List.mem_cons_self)) (by decide)
  · obtain rfl := (List.cons.inj hbody).2
    rfl

end Written

/-- What is accepted of a text that is cut in front of its suffix. -/
theorem parse_eq_ok_iff_unit {text : String} {trimmed : List Char}
    (htrimmed : Text.trimChars text.toList = trimmed) (d : Duration) :
    parse text = .ok d ↔ ∃ n, Text.readNat? Text.maxWord (unit trimmed).1 = some n ∧ 0 < n ∧
      (unit trimmed).2 n = d := by
  simp only [parse, htrimmed]
  by_cases hnil : trimmed = []
  · rw [if_pos hnil, hnil]
    constructor
    · nofun
    · rintro ⟨n, hread, -⟩
      cases hread
  · rw [if_neg hnil]
    cases hread : Text.readNat? Text.maxWord (unit trimmed).1 with
    | none => exact ⟨nofun, fun ⟨n, hn, _⟩ => absurd hn nofun⟩
    | some n =>
        cases n with
        | zero =>
            constructor
            · nofun
            · rintro ⟨n, hn, hpos, -⟩
              exact absurd (Option.some.inj hn) hpos.ne
        | succ n => simp

/-- Without white space around it, a text is accepted exactly if it is a written span of a positive
number of at most 64 bits. -/
theorem parse_eq_ok_iff (text : String) (d : Duration) :
    parse text = .ok d ↔ ∃ w : Written, w.chars = Text.trimChars text.toList ∧ 0 < w.value ∧
      w.value ≤ Text.maxWord ∧ w.span = d := by
  generalize htrimmed : Text.trimChars text.toList = trimmed
  rw [parse_eq_ok_iff_unit htrimmed]
  constructor
  · rintro ⟨n, hread, hpos, rfl⟩
    obtain ⟨plus, digits, hbody, hne, hdigits, rfl, hle⟩ := Text.read_nat_eq_some_iff.1 hread
    obtain ⟨suffix, htext, hspan⟩ := unit_cases trimmed
    refine ⟨⟨plus, digits, suffix, hne, hdigits⟩, ?_, hpos, hle, (hspan _).symm⟩
    rw [htext, hbody]
    rfl
  · rintro ⟨w, rfl, hpos, hle, rfl⟩
    obtain ⟨hbody, hspan⟩ := w.unit_chars
    refine ⟨w.value, ?_, hpos, hspan _⟩
    rw [hbody, Text.read_nat_eq_some_iff]
    exact ⟨w.plus, w.digits, rfl, w.digits_ne_nil, w.is_digit, rfl, hle⟩

/-! ## Arithmetic -/

section
variable {w : Written} (h : w.value < 2 ^ 64)
include h

/-- No number that the digits are read as by and by has more than 64 bits. -/
theorem Written.read_value_lt {front : List Char} (hfront : front <+: w.digits) :
    Nat.ofDigitChars 10 front 0 < 2 ^ 64 := by
  obtain ⟨rest, hrest⟩ := hfront
  have hle := Text.le_of_digit_chars rest (Nat.ofDigitChars 10 front 0)
  rw [← Nat.ofDigitChars_append, hrest] at hle
  exact hle.trans_lt h

/-- The seconds of a span have at most 64 bits, and its nanoseconds are below a second. -/
theorem Written.span_lt : w.span.seconds < 2 ^ 64 ∧ w.span.nanos < 10 ^ 9 := by
  unfold Written.span
  generalize w.value = n at h
  cases w.suffix with
  | millis => exact ⟨by simp only [Suffix.span]; omega, by simp only [Suffix.span]; omega⟩
  | seconds => exact ⟨h, Nat.pow_pos (by decide)⟩
  | none => exact ⟨h, Nat.pow_pos (by decide)⟩

end

end Duration

namespace Sampler

/-- The command reads a span exactly as the span is read. -/
theorem span_eq_ok_iff (text : String) (d : Duration) :
    span text = .ok d ↔ Duration.parse text = .ok d := by
  unfold span
  cases Duration.parse text with
  | error e => exact ⟨nofun, nofun⟩
  | ok _ => simp [Except.mapError]

/-- A text is accepted exactly if it is, with any white space around it, a written span of a
positive number of at most 64 bits, and it stands for the span that is meant; any other text is a
wrong use of the command. No text is a written span in two ways, and what is computed from an
accepted one has its place in words of 64 and, for the nanoseconds, 32 bits. -/
theorem span_of_written (text : String) :
    (∀ d, span text = .ok d ↔ ∃ before after, ∃ w : Duration.Written,
      (∀ c ∈ before, Text.isBlank c) ∧ (∀ c ∈ after, Text.isBlank c) ∧
        text.toList = before ++ (w.chars ++ after) ∧ 1 ≤ w.value ∧ w.value ≤ 2 ^ 64 - 1 ∧
          w.span = d) ∧
      (∀ failure, span text = .error failure → failure.status = 64) ∧
      (∀ v w : Duration.Written, v.chars = w.chars → v = w) ∧
      ∀ w : Duration.Written, w.value ≤ 2 ^ 64 - 1 →
        (∀ front, front <+: w.digits → Nat.ofDigitChars 10 front 0 < 2 ^ 64) ∧
          w.span.seconds < 2 ^ 64 ∧ w.span.nanos < 10 ^ 9 := by
  refine ⟨fun d => ?_, fun failure h => ?_, fun v w h => v.eq_of_chars h, fun w h => ?_⟩
  · rw [span_eq_ok_iff, Duration.parse_eq_ok_iff]
    constructor
    · rintro ⟨w, hchars, hpos, hle, hspan⟩
      obtain ⟨before, after, hbefore, hafter, htext⟩ := Text.padded_trim_chars text.toList
      rw [← hchars] at htext
      exact ⟨before, after, w, hbefore, hafter, htext, hpos, hle, hspan⟩
    · rintro ⟨before, after, w, hbefore, hafter, htext, hpos, hle, hspan⟩
      refine ⟨w, ?_, hpos, hle, hspan⟩
      rw [htext, Text.trim_chars_of_padded hbefore w.not_blank hafter]
  · unfold span at h
    cases hparse : Duration.parse text with
    | ok d =>
        rw [hparse] at h
        cases h
    | error e =>
        rw [hparse] at h
        cases h
        rfl
  · have hless : w.value < 2 ^ 64 := Nat.lt_of_le_pred (by decide) h
    exact ⟨fun front hfront => Duration.Written.read_value_lt hless hfront,
      Duration.Written.span_lt hless⟩

/-- A quarter of a second, with a sign, leading zeros and white space around it. -/
theorem span_of_quarter :
    span "\t+00250ms\u3000" = .ok ⟨0, 250000000⟩ ∧
      (∃ failure, span "250 ms" = .error failure ∧ failure.status = 64) ∧
      (Duration.Written.mk true ['2', '5', '0'] .millis nofun
        (List.all_eq_true.1 rfl)).span.nanos < 10 ^ 9 := by
  obtain ⟨haccepted, -, -, -⟩ := span_of_written "\t+00250ms\u3000"
  obtain ⟨-, hrefused, -, hsmall⟩ := span_of_written "250 ms"
  refine ⟨?_, ?_, (hsmall _ (by decide)).2.2⟩
  · refine (haccepted _).2 ⟨['\t'], ['\u3000'],
      ⟨true, ['0', '0', '2', '5', '0'], .millis, nofun, List.all_eq_true.1 rfl⟩, ?_⟩
    exact ⟨List.all_eq_true.1 rfl, List.all_eq_true.1 rfl, by decide⟩
  · have herror : span "250 ms" = .error (Exit.ofDuration (.invalid "250 ms")) := by decide +kernel
    exact ⟨_, herror, hrefused _ herror⟩

end Sampler

end EngineLink
