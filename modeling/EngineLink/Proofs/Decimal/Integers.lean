import EngineLink.Decimal.Fixed
import EngineLink.Decimal.Read
import EngineLink.Proofs.Binary64.Whole
import EngineLink.Proofs.Text.Numerals

/-!
# Whole numbers as decimals

A decimal of moderate size is read as the number nearest to it, so that a numeral reads as its
number. A number that stands for an integer is written as the integer and zeros behind the point,
and reads back as the integer.

Read `to_binary64_rounds` first, then `fixed_of_integer` and `read_of_integer`.
-/

namespace EngineLink.Decimal

/-- A decimal of moderate size is the number nearest to it. -/
theorem to_binary64_rounds (negative : Bool) (coefficient : Nat) (exponent : Int)
    (h : underflowPlaces ≤ (Text.digits coefficient).length + exponent ∧
      (Text.digits coefficient).length + exponent ≤ overflowPlaces) :
    (Exact.toBinary64 negative ⟨coefficient, exponent⟩).Rounds
      (Binary64.signed negative (coefficient * 10 ^ exponent)) := by
  have hsplit := Binary64.split_power (by decide : 10 ≠ 0) coefficient 1 (-exponent)
  rw [neg_neg, Nat.one_mul, Nat.cast_one, div_one] at hsplit
  rw [Exact.toBinary64]
  split
  · next hzero =>
      obtain rfl : coefficient = 0 := hzero
      exact ⟨negative, 0, 1, one_ne_zero, rfl, by simp⟩
  · simp only [if_neg h.2.not_gt, if_neg h.1.not_gt]
    refine ⟨negative, _, _, (Nat.pow_pos (by decide)).ne', rfl, ?_⟩
    exact congrArg (Binary64.signed negative) hsplit.symm

/-- A whole number of at most 53 bits is not changed. -/
theorem to_binary64_of_integer {n : Nat} (hn : n < 2 ^ 53) :
    (Exact.toBinary64 false ⟨n, 0⟩).rational? = some (n : ℚ) := by
  have hplaces : (Text.digits n).length ≤ 16 := by
    rw [Text.digits_eq_to_digits, Nat.length_toDigits_le_iff (by decide) (by decide)]
    omega
  have hrounds := to_binary64_rounds false n 0 (by rw [underflowPlaces, overflowPlaces]; omega)
  rw [zpow_zero, mul_one] at hrounds
  exact Binary64.Rounds.integer (n := n) hrounds hn

/-! ## Reading digits -/

/-- A decimal digit of the library is one of the reader. -/
theorem is_digit_of_digits {cs : List Char} (h : ∀ c ∈ cs, c.isDigit) : ∀ c ∈ cs, isDigit c := by
  intro c hc
  rw [isDigit, Text.digit_value_of_is_digit (h c hc)]
  rfl

/-- Digits have the coefficient that is their number in base ten. -/
theorem coefficient_of_eq {cs : List Char} (h : ∀ c ∈ cs, c.isDigit) :
    coefficientOf cs = Nat.ofDigitChars 10 cs 0 := by
  rw [coefficientOf, Text.digits_value_from_eq h, Option.getD_some]

/-- Digits alone are read as their number. -/
theorem read_exact_of_digits {cs : List Char} (h : ∀ c ∈ cs, c.isDigit) (hne : cs ≠ []) :
    readExact? cs = some ⟨Nat.ofDigitChars 10 cs 0, 0⟩ := by
  obtain ⟨htake, hdrop⟩ := Text.span_append (is_digit_of_digits h) [] (by simp)
  rw [List.append_nil] at htake hdrop
  simp only [readExact?, htake, hdrop, hne, false_and, if_false, List.append_nil,
    coefficient_of_eq h, List.length_nil, Nat.cast_zero, neg_zero]

/-- Digits around a point are read as the number of all of them, with one negative power of ten for
each behind the point. -/
theorem read_exact_of_point {whole fraction : List Char} (hwhole : ∀ c ∈ whole, c.isDigit)
    (hne : whole ≠ []) (hfraction : ∀ c ∈ fraction, c.isDigit) :
    readExact? (whole ++ '.' :: fraction) =
      some ⟨Nat.ofDigitChars 10 (whole ++ fraction) 0, -(fraction.length : Int)⟩ := by
  have hpoint : ∀ c ∈ ('.' :: fraction).head?, isDigit c = false := by
    intro c hc
    cases hc
    decide
  obtain ⟨htake, hdrop⟩ := Text.span_append (is_digit_of_digits hwhole) ('.' :: fraction) hpoint
  obtain ⟨htakeMore, hdropMore⟩ := Text.span_append (is_digit_of_digits hfraction) [] (by simp)
  rw [List.append_nil] at htakeMore hdropMore
  have hall : ∀ c ∈ whole ++ fraction, c.isDigit := by
    simpa [or_imp, forall_and] using ⟨hwhole, hfraction⟩
  simp only [readExact?, htake, hdrop, htakeMore, hdropMore, hne, false_and, if_false,
    coefficient_of_eq hall]

/-- A decimal that begins with a digit is read with the sign in front of it. -/
theorem read_of_exact {whole : List Char} (hwhole : ∀ c ∈ whole, c.isDigit)
    (hne : whole ≠ []) (tail : List Char) {d : Exact} (h : readExact? (whole ++ tail) = some d)
    (negative : Bool) :
    read (if negative then '-' :: (whole ++ tail) else whole ++ tail) =
      .ok (d.toBinary64 negative) := by
  cases negative with
  | true => simp [read, h]
  | false =>
      obtain ⟨c, rest, rfl⟩ := List.exists_cons_of_ne_nil hne
      have hc := hwhole c List.mem_cons_self
      have hminus : c ≠ '-' := by
        rintro rfl
        exact absurd hc (by decide)
      have hplus : c ≠ '+' := by
        rintro rfl
        exact absurd hc (by decide)
      rw [List.cons_append] at h ⊢
      simp [read, hminus, hplus, h]

/-- A numeral of at most 53 bits is read as its number, zero with a plus sign. -/
theorem read_of_numeral {n : Nat} {cs : List Char} (h : Text.Numeral n cs) (hn : n < 2 ^ 53) :
    ∃ x, read cs = .ok x ∧ x.rational? = some (n : ℚ) ∧ x.isNegative = false := by
  have hexact : readExact? cs = some ⟨n, 0⟩ := by
    rw [read_exact_of_digits h.is_digit h.ne_nil, h.value]
  have hread := read_of_exact h.is_digit h.ne_nil [] (by rwa [List.append_nil]) false
  rw [if_neg Bool.false_ne_true, List.append_nil] at hread
  have hvalue := to_binary64_of_integer hn
  refine ⟨_, hread, hvalue, ?_⟩
  rcases Nat.eq_zero_or_pos n with rfl | hpos
  · decide
  · exact Binary64.is_negative_of_pos hvalue (Nat.cast_pos.2 hpos)

/-! ## Writing integers -/

/-- A quotient without a remainder is not changed by rounding. -/
theorem round_div_mul (n : Nat) {den : Nat} (hden : 0 < den) :
    Binary64.roundDiv (n * den) den = n := by
  have hrest : ¬ (den < 2 * 0 ∨ (2 * 0 = den ∧ n % 2 = 1)) := by omega
  simp only [Binary64.roundDiv, Nat.mul_mod_left, Nat.mul_div_cancel n hden, if_neg hrest]

/-- A whole number has zeros behind the point. -/
theorem place_digits_of_whole {places : Nat} (hplaces : places ≠ 0) (n : Nat) :
    placeDigits places (n * 10 ^ places) =
      Nat.toDigits 10 n ++ '.' :: List.replicate places '0' := by
  have hpos : 0 < 10 ^ places := Nat.pow_pos (by decide)
  obtain ⟨fewer, rfl⟩ := Nat.exists_eq_succ_of_ne_zero hplaces
  simp only [placeDigits, Nat.pow_eq, Nat.mul_div_cancel n hpos, Nat.mul_mod_left, if_neg hplaces,
    Text.digits_eq_to_digits, Nat.toDigits_zero, List.length_singleton, Nat.succ_sub_one,
    List.replicate_succ']

/-- A number that stands for an integer, and has no negative zero, is written as the integer. -/
theorem fixed_of_integer {x : Binary64} {n : Int} (hx : x.rational? = some (n : ℚ))
    (hzero : n = 0 → x.isNegative = false) {places : Nat} (hplaces : places ≠ 0) :
    fixed places x = Text.intChars n ++ '.' :: List.replicate places '0' := by
  obtain ⟨m, e, hdatum, hmagnitude⟩ := Binary64.datum_of_integer hx hzero
  have hrounded : Binary64.roundDiv (m * Nat.pow 2 e.toNat * Nat.pow 10 places)
      (Nat.pow 2 (-e).toNat) = n.natAbs * 10 ^ places := by
    rw [hmagnitude, Nat.mul_right_comm]
    exact round_div_mul (n.natAbs * 10 ^ places) (Nat.pow_pos Nat.two_pos)
  rw [Text.int_chars_append]
  simp only [fixed, hdatum, hrounded, place_digits_of_whole hplaces, decide_eq_true_eq]

/-- The text of an integer of at most 53 bits, with a point and zeros behind it, is read as the
integer. -/
theorem read_of_integer {n : Int} (hn : n.natAbs < 2 ^ 53) {places : Nat} (hplaces : places ≤ 200) :
    ∃ x, read (Text.intChars n ++ '.' :: List.replicate places '0') = .ok x ∧
      x.rational? = some (n : ℚ) := by
  have hdigits : ∀ c ∈ Nat.toDigits 10 n.natAbs, c.isDigit := fun c hc =>
    Nat.isDigit_of_mem_toDigits (by decide) (by decide) hc
  have hzeros : ∀ c ∈ List.replicate places '0', c.isDigit := fun c hc => by
    rw [List.eq_of_mem_replicate hc]
    rfl
  have hexact := read_exact_of_point hdigits Nat.toDigits_ne_nil hzeros
  rw [Nat.ofDigitChars_append, Nat.ofDigitChars_ten_toDigits, Nat.ofDigitChars_replicate_zero,
    List.length_replicate] at hexact
  have hread := read_of_exact hdigits Nat.toDigits_ne_nil _ hexact (n < 0)
  simp only [decide_eq_true_eq, ← Text.int_chars_append] at hread
  have hplaces : (Text.digits (10 ^ places * n.natAbs)).length ≤ 216 := by
    rw [Text.digits_eq_to_digits, Nat.length_toDigits_le_iff (by decide) (by decide)]
    calc 10 ^ places * n.natAbs
      _ < 10 ^ 200 * 10 ^ 16 := Nat.mul_lt_mul_of_le_of_lt
          (Nat.pow_le_pow_right (by decide) hplaces) (hn.trans (by decide)) (by decide)
      _ = 10 ^ 216 := (Nat.pow_add 10 200 16).symm
  have hrounds := to_binary64_rounds (n < 0) (10 ^ places * n.natAbs) (-places)
    (by rw [underflowPlaces, overflowPlaces]; omega)
  have hvalue : (((10 ^ places * n.natAbs : ℕ) : ℚ) * 10 ^ (-(places : ℤ))) = n.natAbs := by
    rw [zpow_neg, zpow_natCast]
    push_cast
    field_simp
  rw [hvalue, Binary64.signed_nat_abs] at hrounds
  exact ⟨_, hread, hrounds.integer hn⟩

end EngineLink.Decimal
