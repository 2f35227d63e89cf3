import EngineLink.Text.Blank
import EngineLink.Text.Digits
import Mathlib.Data.List.DropRight
import Mathlib.Tactic.IntervalCases

/-!
# Reading digits back

A text of digits is read as its positional value, so that the digits of a number read back as the
number, also behind any zeros. Trimming takes white space off a text that has none of its own.

Read `Numeral` first, then `Numeral.read_int64`.
-/

namespace EngineLink.Text

/-! ## The value of digits -/

/-- The code of a digit lies between those of zero and nine. -/
theorem to_nat_of_is_digit {c : Char} (h : c.isDigit) : 48 ≤ c.toNat ∧ c.toNat ≤ 57 := by
  simpa [Char.isDigit, UInt32.le_iff_toNat_le] using h

/-- A digit is worth what it lies above the zero. -/
theorem digit_value_of_is_digit {c : Char} (h : c.isDigit) :
    digitValue? c = some (c.toNat - '0'.toNat) :=
  if_pos (to_nat_of_is_digit h)

/-- Digits that continue a value add their places behind it. -/
theorem digits_value_from_eq {cs : List Char} (h : ∀ c ∈ cs, c.isDigit) (acc : Nat) :
    digitsValueFrom? acc cs = some (Nat.ofDigitChars 10 cs acc) := by
  induction cs generalizing acc with
  | nil => rfl
  | cons c rest ih =>
      rw [List.forall_mem_cons] at h
      rw [digitsValueFrom?, digit_value_of_is_digit h.1, Nat.ofDigitChars_cons]
      exact ih h.2 _

/-- Reading on does not make a number smaller. -/
theorem le_of_digit_chars (cs : List Char) (acc : Nat) : acc ≤ Nat.ofDigitChars 10 cs acc := by
  induction cs generalizing acc with
  | nil => exact le_rfl
  | cons c rest ih =>
      rw [Nat.ofDigitChars_cons]
      exact le_trans (by omega) (ih _)

/-- So many digits stay below the power of ten. -/
theorem digit_chars_lt {cs : List Char} (h : ∀ c ∈ cs, c.isDigit) (acc : Nat) :
    Nat.ofDigitChars 10 cs acc < (acc + 1) * 10 ^ cs.length := by
  induction cs generalizing acc with
  | nil => rw [Nat.ofDigitChars_nil, List.length_nil, Nat.pow_zero]; omega
  | cons c rest ih =>
      rw [List.forall_mem_cons] at h
      have hrange := to_nat_of_is_digit h.1
      have hzero : '0'.toNat = 48 := rfl
      rw [Nat.ofDigitChars_cons, List.length_cons, Nat.pow_succ', ← Nat.mul_assoc]
      refine (ih h.2 _).trans_le (Nat.mul_le_mul_right _ ?_)
      omega

/-- The digits of a number that is not zero do not begin with a zero. -/
theorem to_digits_cons {n : Nat} (hn : n ≠ 0) :
    ∃ c rest, Nat.toDigits 10 n = c :: rest ∧ c ≠ '0' := by
  induction n using digits.induct with
  | case1 n hsmall =>
      refine ⟨Nat.digitChar n, [], Nat.toDigits_of_lt_base hsmall, fun hzero => hn ?_⟩
      have hvalue := Nat.ofDigitChars_ten_toDigits (n := n)
      rw [Nat.toDigits_of_lt_base hsmall, hzero] at hvalue
      exact hvalue.symm
  | case2 n hlarge ih =>
      obtain ⟨c, rest, hdigits, hc⟩ := ih (by omega)
      refine ⟨c, rest ++ [Nat.digitChar (n % 10)], ?_, hc⟩
      rw [Nat.toDigits_of_base_le (by decide) (not_lt.1 hlarge), hdigits, List.cons_append]

/-- The digit of a number below ten is that of the library. -/
theorem digit_char_eq {d : Nat} (h : d < 10) : digitChar d = Nat.digitChar d := by
  interval_cases d <;> rfl

/-- The digits of a number are those of the library. -/
theorem digits_eq_to_digits (n : Nat) : digits n = Nat.toDigits 10 n := by
  induction n using digits.induct with
  | case1 n hsmall =>
      rw [digits, if_pos hsmall, Nat.toDigits_of_lt_base hsmall, digit_char_eq hsmall]
  | case2 n hlarge ih =>
      have hlast : digitChar n = Nat.digitChar (n % 10) := by
        rw [← digit_char_eq (Nat.mod_lt n (by decide)), digitChar, digitChar, Nat.mod_mod]
      rw [digits, if_neg hlarge, ih, hlast, Nat.toDigits_of_base_le (by decide) (not_lt.1 hlarge)]

/-- The text of an integer is the usual one. -/
theorem of_int_eq_to_string (n : Int) : ofInt n = toString n := by
  rw [ofInt, intChars, digits_eq_to_digits]
  cases n with
  | ofNat n => rfl
  | negSucc n =>
      rw [if_pos (Int.negSucc_lt_zero n)]
      exact String.ofList_cons

/-- The text of an integer is its sign, if it is negative, and its digits. -/
theorem int_chars_append (n : Int) (tail : List Char) :
    intChars n ++ tail =
      if n < 0 then '-' :: (Nat.toDigits 10 n.natAbs ++ tail)
      else Nat.toDigits 10 n.natAbs ++ tail := by
  rw [intChars, digits_eq_to_digits]
  split
  · rfl
  · rfl

/-! ## Numerals -/

/-- The digits of a number, with any zeros in front. -/
def Numeral (n : Nat) (cs : List Char) : Prop :=
  ∃ zeros, cs = List.replicate zeros '0' ++ Nat.toDigits 10 n

section
variable {n : Nat} {cs : List Char} (h : Numeral n cs)
include h

/-- A numeral has a digit. -/
theorem Numeral.ne_nil : cs ≠ [] := by
  obtain ⟨zeros, rfl⟩ := h
  exact List.append_ne_nil_of_right_ne_nil _ Nat.toDigits_ne_nil

/-- A numeral has digits only. -/
theorem Numeral.is_digit : ∀ c ∈ cs, c.isDigit := by
  obtain ⟨zeros, rfl⟩ := h
  intro c hc
  rcases List.mem_append.1 hc with hzero | hdigit
  · rw [List.eq_of_mem_replicate hzero]
    rfl
  · exact Nat.isDigit_of_mem_toDigits (by decide) (by decide) hdigit

/-- Nothing but a digit is in a numeral. -/
theorem Numeral.not_mem {c : Char} (hc : c.isDigit = false) : c ∉ cs := fun hmem =>
  Bool.false_ne_true (hc.symm.trans (h.is_digit c hmem))

/-- A numeral has its number as its value. -/
theorem Numeral.value : Nat.ofDigitChars 10 cs 0 = n := by
  obtain ⟨zeros, rfl⟩ := h
  rw [Nat.ofDigitChars_append, Nat.ofDigitChars_replicate_zero, mul_zero,
    Nat.ofDigitChars_ten_toDigits]

/-- A numeral of at most 63 bits is read as its number. -/
theorem Numeral.read_int64 (hn : n < 2 ^ 63) : readInt64? cs = some (n : Int) := by
  have hdigits := h.is_digit
  have hvalue : digitsValue? cs = some n := by
    rw [digitsValue?, if_neg h.ne_nil, digits_value_from_eq hdigits, h.value]
  have hfits : (-0x8000000000000000 : Int) ≤ n ∧ (n : Int) ≤ 0x7FFFFFFFFFFFFFFF := by omega
  unfold readInt64? readInt?
  split
  · exact absurd (hdigits '-' List.mem_cons_self) (by decide)
  · exact absurd (hdigits '+' List.mem_cons_self) (by decide)
  · rw [hvalue]
    exact if_pos (decide_eq_true hfits)

end

/-! ## Cutting and trimming -/

/-- The characters of ASCII that are seen are not blank. -/
theorem not_blank_of_visible {c : Char} (h : 33 ≤ c.toNat ∧ c.toNat ≤ 126) :
    isBlank c = false := by
  simp only [isBlank, isBlankCode, Bool.or_eq_false_iff, Bool.and_eq_false_iff,
    decide_eq_false_iff_not, beq_eq_false_iff_ne]
  omega

/-- A text is cut where its first characters of a kind end. -/
theorem span_append {p : Char → Bool} {first : List Char} (hfirst : ∀ c ∈ first, p c)
    (rest : List Char) (hrest : ∀ c ∈ rest.head?, p c = false) :
    (first ++ rest).takeWhile p = first ∧ (first ++ rest).dropWhile p = rest := by
  rw [List.takeWhile_append_of_pos hfirst, List.dropWhile_append_of_pos hfirst]
  cases rest with
  | nil => exact ⟨List.append_nil first, rfl⟩
  | cons c rest => simp [hrest c rfl]

/-- Trimming a text that has white space around it only leaves what is between. -/
theorem trim_chars_of_padded {before word after : List Char} (hbefore : ∀ c ∈ before, isBlank c)
    (hword : ∀ c ∈ word, isBlank c = false) (hafter : ∀ c ∈ after, isBlank c) :
    trimChars (before ++ (word ++ after)) = word := by
  cases hcase : word with
  | nil =>
      -- nothing is left where the white space in front could end
      have hall : ∀ c ∈ before ++ after, isBlank c := by
        simpa [or_imp, forall_and] using ⟨hbefore, hafter⟩
      rw [List.nil_append, trimChars, trimLeft, List.dropWhile_eq_nil_iff.2 hall]
      rfl
  | cons c rest =>
      have hfirst : ∀ d ∈ (word ++ after).head?, isBlank d = false := by
        intro d hd
        rw [hcase] at hd
        cases hd
        exact hword c (hcase ▸ List.mem_cons_self)
      have hlast : ∀ d ∈ word.reverse.head?, isBlank d = false := by
        intro d hd
        exact hword d (List.mem_reverse.1 (List.mem_of_mem_head? hd))
      have hafter : ∀ d ∈ after.reverse, isBlank d := by
        intro d hd
        exact hafter d (List.mem_reverse.1 hd)
      rw [← hcase, trimChars, trimLeft, (span_append hbefore _ hfirst).2, trimRight,
        List.reverse_append, (span_append hafter _ hlast).2, List.reverse_reverse]

/-- A numeral has no white space. -/
theorem Numeral.not_blank {n : Nat} {cs : List Char} (h : Numeral n cs) :
    ∀ c ∈ cs, isBlank c = false := by
  intro c hc
  have hdigit := to_nat_of_is_digit (h.is_digit c hc)
  exact not_blank_of_visible (by omega)

/-- A numeral is not changed by trimming. -/
theorem Numeral.trim {n : Nat} {cs : List Char} (h : Numeral n cs) : trimChars cs = cs := by
  have htrim : trimChars ([] ++ (cs ++ [])) = cs :=
    trim_chars_of_padded (by simp) h.not_blank (by simp)
  rwa [List.nil_append, List.append_nil] at htrim

end EngineLink.Text
