import EngineLink.Binary64.Arithmetic
import Mathlib.Algebra.Order.Field.Power
import Mathlib.Data.Rat.Cast.Order
import Mathlib.Data.Rat.Floor
import Mathlib.Tactic.FieldSimp
import Mathlib.Tactic.Linarith
import Mathlib.Tactic.NormNum
import Mathlib.Tactic.Positivity
import Mathlib.Tactic.Ring

/-!
# How far rounding is off

The result of an operation is its exact result, a rational number, rounded once. A result below a
power of two is off by at most half of the weight of its last bit, and a result of at most 53 bits
is not changed.

Read `Rounds` first, then `Rounds.error` and `Rounds.exact`.
-/

namespace EngineLink.Binary64

/-- A magnitude with a sign. -/
def signed (negative : Bool) (q : ℚ) : ℚ :=
  if negative then -q else q

/-- The rational number that a finite number is. -/
def rational? (x : Binary64) : Option ℚ :=
  match x.datum with
  | .finite negative m e => some (signed negative (m * 2 ^ e))
  | _ => none

/-- A finite number is its significand at its exponent, with its sign. -/
theorem rational_of_datum {x : Binary64} {negative : Bool} {m : Nat} {e : Int}
    (h : x.datum = .finite negative m e) : x.rational? = some (signed negative (m * 2 ^ e)) := by
  rw [rational?, h]

/-! ## Rounding a quotient to an integer -/

/-- Twice the rounded quotient times the denominator misses twice the numerator by no more than the
denominator. -/
theorem round_div_bounds (num : Nat) {den : Nat} (hden : 0 < den) :
    2 * num ≤ 2 * (roundDiv num den * den) + den ∧
      2 * (roundDiv num den * den) ≤ 2 * num + den := by
  have hdiv := Nat.div_add_mod num den
  have hmod := Nat.mod_lt num hden
  have hnext : (num / den + 1) * den = den * (num / den) + den := by ring
  have hsame : num / den * den = den * (num / den) := Nat.mul_comm _ _
  simp only [roundDiv]
  split
  · next h => rw [hnext]; omega
  · next h => rw [hsame]; omega

/-- The nearest integer is at most a half away. -/
theorem round_div_error (num : Nat) {den : Nat} (hden : 0 < den) :
    |(roundDiv num den : ℚ) - num / den| ≤ 1 / 2 := by
  obtain ⟨hlow, hhigh⟩ := round_div_bounds num hden
  have hden' : (0 : ℚ) < den := Nat.cast_pos.2 hden
  have hlow' : 2 * (num : ℚ) ≤ 2 * (roundDiv num den * den) + den := by exact_mod_cast hlow
  have hhigh' : 2 * (roundDiv num den * den : ℚ) ≤ 2 * num + den := by exact_mod_cast hhigh
  rw [abs_le, neg_le_sub_iff_le_add, sub_le_iff_le_add, div_le_iff₀ hden', add_comm (1 / 2 : ℚ),
    ← sub_le_iff_le_add, le_div_iff₀ hden']
  constructor
  · linarith
  · linarith

/-! ## The exponent of a quotient -/

/-- Splitting a power between numerator and denominator. -/
theorem split_power {base : Nat} (hbase : base ≠ 0) (num den : Nat) (e : Int) :
    ((num * Nat.pow base (-e).toNat : ℕ) : ℚ) / (den * Nat.pow base e.toNat : ℕ) =
      num / den * base ^ (-e) := by
  have hsplit : (base : ℚ) ^ (-e) = base ^ (-e).toNat / base ^ e.toNat := by
    rw [← zpow_natCast, ← zpow_natCast, ← zpow_sub₀ (Nat.cast_ne_zero.2 hbase)]
    congr 1
    omega
  simp only [Nat.pow_eq]
  push_cast
  rw [hsplit, mul_div_mul_comm]

/-- A quotient times a power of two is a quotient of two integers. -/
theorem scaled_ratio (num den : Nat) (e : Int) :
    ((num * Nat.pow 2 (-e).toNat : ℕ) : ℚ) / (den * Nat.pow 2 e.toNat : ℕ) =
      num / den * 2 ^ (-e) :=
  split_power two_ne_zero num den e

/-- A multiple of a power of two as a quotient. -/
theorem dyadic_ratio (m : Nat) (e : Int) :
    ((m * Nat.pow 2 e.toNat : ℕ) : ℚ) / (Nat.pow 2 (-e).toNat : ℕ) = m * 2 ^ e := by
  have hscaled := scaled_ratio m 1 (-e)
  rwa [neg_neg, Nat.one_mul, Nat.cast_one, div_one] at hscaled

/-- A quotient is below a bound at an exponent as its two scaled parts are. -/
theorem scaled_lt_iff {num den : Nat} (hden : den ≠ 0) (e : Int) (bound : Nat) :
    num * Nat.pow 2 (-e).toNat < den * bound * Nat.pow 2 e.toNat ↔
      (num : ℚ) / den < bound * 2 ^ e := by
  have hpos : (0 : ℚ) < (den * Nat.pow 2 e.toNat : ℕ) :=
    Nat.cast_pos.2 (Nat.mul_pos (Nat.pos_of_ne_zero hden) (Nat.pow_pos Nat.two_pos))
  rw [← mul_inv_lt_iff₀ (zpow_pos two_pos e), ← zpow_neg, ← scaled_ratio, div_lt_iff₀ hpos,
    mul_right_comm, mul_comm _ bound]
  exact_mod_cast Iff.rfl

/-- A positive number lies between two powers of two. -/
theorem log_bounds {n : Nat} (hn : n ≠ 0) :
    (2 : ℚ) ^ (n.log2 : ℤ) ≤ n ∧ (n : ℚ) < 2 ^ (n.log2 + 1 : ℤ) := by
  constructor
  · rw [zpow_natCast]
    exact_mod_cast Nat.log2_self_le hn
  · rw [← Nat.cast_one, ← Nat.cast_add, zpow_natCast]
    exact_mod_cast Nat.lt_log2_self

/-- At its exponent a quotient has at most 53 bits, and exactly 53 unless the exponent is the
least. -/
theorem ratio_exponent_bounds {num den : Nat} (hnum : num ≠ 0) (hden : den ≠ 0) :
    let e := ratioExponent num den
    minExponent ≤ e ∧ (num : ℚ) / den < 2 ^ (e + 53) ∧
      (e ≠ minExponent → (2 : ℚ) ^ (e + 52) ≤ num / den) := by
  obtain ⟨hnumLow, hnumHigh⟩ := log_bounds hnum
  obtain ⟨hdenLow, hdenHigh⟩ := log_bounds hden
  have hpos : (0 : ℚ) < den := Nat.cast_pos.2 (Nat.pos_of_ne_zero hden)
  -- the logarithms leave two candidates
  have hhigh : (num : ℚ) / den < 2 ^ ((num.log2 : ℤ) - den.log2 - 52 + 53) := by
    rw [show ((num.log2 : ℤ) - den.log2 - 52 + 53) = num.log2 + 1 - den.log2 by ring,
      zpow_sub₀ two_ne_zero]
    exact div_lt_div₀ hnumHigh hdenLow (zpow_pos two_pos _).le (zpow_pos two_pos _)
  have hlow : (2 : ℚ) ^ ((num.log2 : ℤ) - den.log2 - 52 + 51) ≤ num / den := by
    rw [show ((num.log2 : ℤ) - den.log2 - 52 + 51) = num.log2 - (den.log2 + 1) by ring,
      zpow_sub₀ two_ne_zero]
    exact div_le_div₀ (Nat.cast_nonneg _) hnumLow hpos hdenHigh.le
  unfold ratioExponent
  generalize (num.log2 : ℤ) - den.log2 - 52 = e at hhigh hlow
  have htest : num * Nat.pow 2 (-e).toNat < den * leastNormal * Nat.pow 2 e.toNat ↔
      (num : ℚ) / den < 2 ^ (e + 52) := by
    rw [scaled_lt_iff hden, zpow_add₀ two_ne_zero, mul_comm]
    norm_num [leastNormal]
  have hcandidate (c : Int) (hbelow : (num : ℚ) / den < 2 ^ (c + 53))
      (habove : (2 : ℚ) ^ (c + 52) ≤ num / den) : minExponent ≤ max c minExponent ∧
        (num : ℚ) / den < 2 ^ (max c minExponent + 53) ∧
          (max c minExponent ≠ minExponent → (2 : ℚ) ^ (max c minExponent + 52) ≤ num / den) := by
    refine ⟨le_max_right _ _, hbelow.trans_le ?_, fun hne => ?_⟩
    · exact zpow_le_zpow_right₀ one_le_two (by omega)
    · rwa [show max c minExponent = c by omega]
  simp only [htest]
  split
  · next hbelow =>
      refine hcandidate (e - 1) ?_ ?_
      · rwa [show e - 1 + 53 = e + 52 by ring]
      · rwa [show e - 1 + 52 = e + 51 by ring]
  · next habove => exact hcandidate e hhigh (not_lt.1 habove)

/-- The significand of a rounded quotient. -/
def ratioSignificand (num den : Nat) : Nat :=
  let e := ratioExponent num den
  roundDiv (num * Nat.pow 2 (-e).toNat) (den * Nat.pow 2 e.toNat)

/-- Rounding is off by at most half of the weight of the last bit. -/
theorem ratio_error (num : Nat) {den : Nat} (hden : den ≠ 0) :
    |(ratioSignificand num den : ℚ) * 2 ^ ratioExponent num den - num / den| ≤
      2 ^ ratioExponent num den / 2 := by
  have hpos : 0 < den * Nat.pow 2 (ratioExponent num den).toNat :=
    Nat.mul_pos (Nat.pos_of_ne_zero hden) (Nat.pow_pos Nat.two_pos)
  have herror := round_div_error (num * Nat.pow 2 (-ratioExponent num den).toNat) hpos
  rw [scaled_ratio, zpow_neg] at herror
  have hweight : (0 : ℚ) < 2 ^ ratioExponent num den := zpow_pos two_pos _
  have hscaled := mul_le_mul_of_nonneg_right herror hweight.le
  rw [← abs_of_pos hweight, ← abs_mul, sub_mul, abs_of_pos hweight, mul_assoc _ _⁻¹,
    inv_mul_cancel₀ hweight.ne', mul_one] at hscaled
  rw [ratioSignificand]
  linarith

/-- A significand has at most 53 bits or is the next power of two; it has less than 53 at the least
exponent only. -/
theorem ratio_significand_bounds {num den : Nat} (hnum : num ≠ 0) (hden : den ≠ 0) :
    ratioSignificand num den ≤ 2 * leastNormal ∧
      (ratioExponent num den ≠ minExponent → leastNormal ≤ ratioSignificand num den) := by
  obtain ⟨-, hbelow, habove⟩ := ratio_exponent_bounds hnum hden
  have herror := abs_le.1 (ratio_error num hden)
  generalize ratioExponent num den = e at hbelow habove herror ⊢
  have hweight : (0 : ℚ) < 2 ^ e := zpow_pos two_pos _
  rw [zpow_add₀ two_ne_zero] at hbelow habove
  constructor
  · have hless : (ratioSignificand num den : ℚ) < (2 * leastNormal + 1 : ℕ) := by
      refine lt_of_mul_lt_mul_right ?_ hweight.le
      norm_num [leastNormal] at hbelow ⊢
      linarith [herror.2]
    exact Nat.lt_succ_iff.1 (Nat.cast_lt.1 hless)
  · intro hne
    have hless : (leastNormal : ℚ) < (ratioSignificand num den + 1 : ℕ) := by
      refine lt_of_mul_lt_mul_right ?_ hweight.le
      have habove := habove hne
      norm_num [leastNormal] at habove ⊢
      linarith [herror.1]
    exact Nat.lt_succ_iff.1 (Nat.cast_lt.1 hless)

/-! ## The bits of a rounded quotient -/

/-- The sign and the magnitude of a number stay what they were given as. -/
theorem magnitude_of_magnitude (negative : Bool) {magnitude : Nat} (h : magnitude < infinityBits) :
    (ofMagnitude negative magnitude).magnitudeBits = magnitude ∧
      (ofMagnitude negative magnitude).isNegative = negative := by
  simp only [infinityBits, leastNormal] at h
  cases negative with
  | false =>
      simp only [ofMagnitude, magnitudeBits, isNegative, signWeight, UInt64.toNat_ofNat',
        Bool.false_eq_true, if_false, decide_eq_false_iff_not]
      omega
  | true =>
      simp only [ofMagnitude, magnitudeBits, isNegative, signWeight, UInt64.toNat_ofNat',
        if_true, decide_eq_true_eq]
      omega

/-- What a magnitude below that of the infinities denotes. -/
theorem datum_of_magnitude (negative : Bool) (magnitude : Nat) (h : magnitude < infinityBits) :
    (ofMagnitude negative magnitude).datum =
      if magnitude < leastNormal then .finite negative magnitude minExponent
      else .finite negative (leastNormal + magnitude % leastNormal)
        (minExponent - 1 + (magnitude / leastNormal : Nat)) := by
  obtain ⟨hmagnitude, hsign⟩ := magnitude_of_magnitude negative h
  simp only [datum, hmagnitude, hsign]
  rw [if_neg h.ne, if_neg h.not_gt]

/-- A significand at an exponent, packed into the bits of a magnitude below that of the infinities,
is read back, also one that carries into the exponent. -/
theorem rational_of_packed (negative : Bool) {significand : Nat} {e : Int}
    (hleast : minExponent ≤ e) (hbits : significand ≤ 2 * leastNormal)
    (hnormal : e ≠ minExponent → leastNormal ≤ significand)
    (hfinite : (e - minExponent).toNat * leastNormal + significand < infinityBits) :
    (ofMagnitude negative (min ((e - minExponent).toNat * leastNormal + significand)
      infinityBits)).rational? = some (signed negative (significand * 2 ^ e)) := by
  obtain ⟨n, hn⟩ := Int.eq_ofNat_of_zero_le (Int.sub_nonneg.2 hleast)
  obtain rfl : e = minExponent + n := by omega
  rw [show (minExponent + n - minExponent).toNat = n by omega] at hfinite
  rw [show (minExponent + n - minExponent).toNat = n by omega, min_eq_left hfinite.le]
  have hdatum := datum_of_magnitude negative _ hfinite
  rcases Nat.lt_or_ge significand leastNormal with hshort | hlong
  · obtain rfl : n = 0 := by
      by_contra hne
      exact absurd (hnormal (by omega)) (Nat.not_le.2 hshort)
    rw [Nat.zero_mul, Nat.zero_add, if_pos hshort] at hdatum
    rw [Nat.zero_mul, Nat.zero_add, rational_of_datum hdatum, Nat.cast_zero, add_zero]
  · rw [if_neg (by simp only [leastNormal] at hlong ⊢; omega)] at hdatum
    rw [rational_of_datum hdatum]
    rcases Nat.lt_or_ge significand (2 * leastNormal) with hfits | hcarries
    · have hdiv : (n * leastNormal + significand) / leastNormal = n + 1 := by
        simp only [leastNormal] at hlong hfits ⊢
        omega
      have hmod : leastNormal + (n * leastNormal + significand) % leastNormal = significand := by
        simp only [leastNormal] at hlong hfits ⊢
        omega
      rw [hdiv, hmod, Nat.cast_succ, sub_add_add_cancel]
    · obtain rfl : significand = 2 * leastNormal := Nat.le_antisymm hbits hcarries
      have hdiv : (n * leastNormal + 2 * leastNormal) / leastNormal = n + 2 := by
        simp only [leastNormal]
        omega
      have hmod : (n * leastNormal + 2 * leastNormal) % leastNormal = 0 := by
        simp only [leastNormal]
        omega
      rw [hdiv, hmod, Nat.add_zero,
        show minExponent - 1 + ((n + 2 : ℕ) : ℤ) = minExponent + n + 1 by push_cast; ring,
        zpow_add_one₀ two_ne_zero, Nat.cast_mul, Nat.cast_two]
      refine congrArg (fun q => some (signed negative q)) ?_
      ring

/-- A zero of either sign is the rational number zero. -/
theorem rational_zero (negative : Bool) : (zero negative).rational? = some (signed negative 0) := by
  have hdatum := datum_of_magnitude negative 0 (by decide)
  rw [if_pos (by decide)] at hdatum
  rw [zero, rational_of_datum hdatum, Nat.cast_zero, zero_mul]

/-- A quotient that is not zero gets the bits of its significand at its exponent, or those of
infinity if these are beyond them. -/
theorem of_ratio_eq (negative : Bool) {num : Nat} (hnum : num ≠ 0) (den : Nat) :
    ofRatio negative num den = ofMagnitude negative
      (min ((ratioExponent num den - minExponent).toNat * leastNormal + ratioSignificand num den)
        infinityBits) := by
  rw [ofRatio, if_neg hnum]
  rfl

/-- A rounded quotient below the infinities is its significand at its exponent. -/
theorem rational_of_finite_ratio (negative : Bool) {num den : Nat} (hnum : num ≠ 0) (hden : den ≠ 0)
    (hfinite : (ratioExponent num den - minExponent).toNat * leastNormal +
      ratioSignificand num den < infinityBits) : (ofRatio negative num den).rational? =
      some (signed negative (ratioSignificand num den * 2 ^ ratioExponent num den)) := by
  obtain ⟨hleast, -, -⟩ := ratio_exponent_bounds hnum hden
  obtain ⟨hbits, hnormal⟩ := ratio_significand_bounds hnum hden
  rw [of_ratio_eq negative hnum]
  exact rational_of_packed negative hleast hbits hnormal hfinite

/-- Below the greatest exponent no significand reaches the infinities. -/
theorem rational_of_ratio (negative : Bool) {num den : Nat} (hnum : num ≠ 0) (hden : den ≠ 0)
    (h : ratioExponent num den ≤ 970) : (ofRatio negative num den).rational? =
      some (signed negative (ratioSignificand num den * 2 ^ ratioExponent num den)) := by
  obtain ⟨hbits, -⟩ := ratio_significand_bounds hnum hden
  refine rational_of_finite_ratio negative hnum hden ?_
  have hexponent : (ratioExponent num den - minExponent).toNat ≤ 2044 := by
    rw [minExponent]
    omega
  simp only [leastNormal, infinityBits] at hbits ⊢
  omega

/-- The exponent of a quotient is 53 below a power of two that the quotient does not reach. -/
theorem ratio_exponent_le {num den : Nat} (hnum : num ≠ 0) (hden : den ≠ 0) {n : Int}
    (hleast : -1021 ≤ n) (h : (num : ℚ) / den < 2 ^ n) : ratioExponent num den ≤ n - 53 := by
  by_cases hmin : ratioExponent num den = minExponent
  · rw [hmin, minExponent]
    omega
  · obtain ⟨-, -, habove⟩ := ratio_exponent_bounds hnum hden
    have := (zpow_lt_zpow_iff_right₀ one_lt_two).1 ((habove hmin).trans_lt h)
    omega

/-! ## Results that are rounded -/

/-- A number is what an exact result rounds to. -/
def Rounds (x : Binary64) (exact : ℚ) : Prop :=
  ∃ negative num den, den ≠ 0 ∧ x = ofRatio negative num den ∧
    exact = signed negative (num / den)

/-- A sign does not change an absolute value. -/
theorem abs_signed (negative : Bool) (q : ℚ) : |signed negative q| = |q| := by
  cases negative with
  | false => rfl
  | true => exact abs_neg q

/-- Numbers with one sign differ by the difference of their magnitudes with that sign. -/
theorem signed_sub_signed (negative : Bool) (p q : ℚ) :
    signed negative p - signed negative q = signed negative (p - q) := by
  cases negative with
  | false => rfl
  | true => exact neg_sub_neg p q |>.trans (neg_sub p q).symm

/-- Rounding a result below a power of two is off by at most half of the weight of its last bit. -/
theorem Rounds.error {x : Binary64} {exact : ℚ} (h : x.Rounds exact) {n : Int}
    (hleast : -1021 ≤ n) (hgreatest : n ≤ 1023) (hbound : |exact| < 2 ^ n) :
    ∃ q, x.rational? = some q ∧ |q - exact| ≤ 2 ^ (n - 54) := by
  obtain ⟨negative, num, den, hden, rfl, rfl⟩ := h
  have hratio : (num : ℚ) / den < 2 ^ n := by
    rwa [abs_signed, abs_of_nonneg (by positivity)] at hbound
  by_cases hnum : num = 0
  · refine ⟨signed negative 0, ?_, ?_⟩
    · rw [ofRatio, if_pos hnum, rational_zero]
    · rw [hnum, Nat.cast_zero, zero_div, sub_self, abs_zero]
      exact (zpow_pos two_pos _).le
  · have hsmall := ratio_exponent_le hnum hden hleast hratio
    refine ⟨_, rational_of_ratio negative hnum hden (by omega), ?_⟩
    rw [signed_sub_signed, abs_signed, show n - 54 = n - 53 - 1 by ring,
      zpow_sub_one₀ two_ne_zero, ← div_eq_mul_inv]
    refine (ratio_error num hden).trans (div_le_div_of_nonneg_right ?_ two_pos.le)
    exact zpow_le_zpow_right₀ one_le_two hsmall

/-- An integer that is at most a half away from another is that one. -/
theorem eq_of_near {m k : Nat} (h : |(m : ℚ) - k| ≤ 1 / 2) : m = k := by
  have hless : |((m : ℤ) - k : ℤ)| < 1 := by
    have hless' : |((m : ℚ) - k)| < 1 := h.trans_lt (by norm_num)
    exact_mod_cast hless'
  exact_mod_cast sub_eq_zero.1 (Int.abs_lt_one_iff.1 hless)

/-- The significand of a multiple of the weight of its last bit is exact. -/
theorem ratio_significand_eq {num den k : Nat} (hden : den ≠ 0)
    (h : (num : ℚ) / den = k * 2 ^ ratioExponent num den) : ratioSignificand num den = k := by
  have herror := ratio_error num hden
  have hweight : (0 : ℚ) < 2 ^ ratioExponent num den := zpow_pos two_pos _
  rw [h, ← sub_mul, abs_mul, abs_of_pos hweight] at herror
  refine eq_of_near (le_of_mul_le_mul_right ?_ hweight)
  rwa [one_div_mul_eq_div]

/-- A result of at most 53 bits is not changed by rounding. -/
theorem Rounds.exact {x : Binary64} {exact : ℚ} (h : x.Rounds exact) {k : Nat} {e : Int}
    (hk : k < 2 ^ 53) (hleast : minExponent ≤ e) (hgreatest : e ≤ 970)
    (hexact : |exact| = k * 2 ^ e) : x.rational? = some exact := by
  obtain ⟨negative, num, den, hden, rfl, rfl⟩ := h
  rw [abs_signed, abs_of_nonneg (by positivity)] at hexact
  by_cases hnum : num = 0
  · rw [ofRatio, if_pos hnum, rational_zero, hnum, Nat.cast_zero, zero_div]
  · have hbound : (num : ℚ) / den < 2 ^ (e + 53) := by
      rw [hexact, zpow_add₀ two_ne_zero, mul_comm]
      refine mul_lt_mul_of_pos_left ?_ (zpow_pos two_pos _)
      exact_mod_cast hk
    have hsmall := ratio_exponent_le hnum hden (by rw [minExponent] at hleast; omega) hbound
    have hsame : (num : ℚ) / den =
        (k * 2 ^ (e - ratioExponent num den).toNat : ℕ) * 2 ^ ratioExponent num den := by
      rw [hexact]
      push_cast
      rw [mul_assoc, ← zpow_natCast, ← zpow_add₀ two_ne_zero]
      congr 2
      omega
    rw [rational_of_ratio negative hnum hden (by omega), ratio_significand_eq hden hsame, ← hsame]

/-- An integer of at most 53 bits is not changed by rounding. -/
theorem Rounds.integer {x : Binary64} {n : Int} (h : x.Rounds n) (hn : n.natAbs < 2 ^ 53) :
    x.rational? = some (n : ℚ) := by
  refine h.exact (e := 0) hn (by decide) (by decide) ?_
  rw [zpow_zero, mul_one, Nat.cast_natAbs, Int.cast_abs]

/-! ## Arithmetic -/

/-- What is a rational number is finite. -/
theorem datum_of_rational {x : Binary64} {q : ℚ} (h : x.rational? = some q) :
    ∃ negative m e, x.datum = .finite negative m e ∧ q = signed negative (m * 2 ^ e) := by
  unfold rational? at h
  split at h
  · next negative m e hdatum => exact ⟨negative, m, e, hdatum, (Option.some.inj h).symm⟩
  · cases h

/-- A multiple of a power of two is rounded once. -/
theorem of_dyadic_rounds (negative : Bool) (n : Nat) (e : Int) :
    (ofDyadic negative n e).Rounds (signed negative (n * 2 ^ e)) :=
  ⟨negative, n * Nat.pow 2 e.toNat, Nat.pow 2 (-e).toNat, (Nat.pow_pos Nat.two_pos).ne', rfl,
    by rw [dyadic_ratio]⟩

/-- An integer is its magnitude with its sign. -/
theorem signed_nat_abs (n : Int) : signed (n < 0) n.natAbs = n := by
  rw [signed, Nat.cast_natAbs]
  rcases lt_or_ge n 0 with hneg | hpos
  · rw [if_pos (decide_eq_true hneg), abs_of_neg hneg, Int.cast_neg, neg_neg]
  · rw [if_neg (by simpa using hpos), abs_of_nonneg hpos]

/-- An integer is rounded once. -/
theorem of_int_rounds (n : Int) : (ofInt n).Rounds n :=
  ⟨n < 0, n.natAbs, 1, one_ne_zero, rfl, by rw [Nat.cast_one, div_one, signed_nat_abs]⟩

/-- A factor may be taken behind a sign. -/
theorem signed_mul (negative : Bool) (p q : ℚ) :
    signed negative (p * q) = signed negative p * q := by
  cases negative with
  | false => rfl
  | true => exact (neg_mul p q).symm

/-- A product has the sign in which its factors differ. -/
theorem signed_mul_signed (s t : Bool) (p q : ℚ) :
    signed s p * signed t q = signed (s != t) (p * q) := by
  cases s <;> cases t
  · rfl
  · exact mul_neg p q
  · exact neg_mul p q
  · exact neg_mul_neg p q

/-- A product is the exact one, rounded once. -/
theorem mul_rounds {x y : Binary64} {p q : ℚ} (hx : x.rational? = some p)
    (hy : y.rational? = some q) : (x * y).Rounds (p * q) := by
  obtain ⟨s, m, e, hxDatum, rfl⟩ := datum_of_rational hx
  obtain ⟨t, n, f, hyDatum, rfl⟩ := datum_of_rational hy
  have hproduct := of_dyadic_rounds (s != t) (m * n) (e + f)
  rw [signed_mul_signed, mul_mul_mul_comm, ← zpow_add₀ two_ne_zero, ← Nat.cast_mul]
  change (mul x y).Rounds _
  rwa [mul, hxDatum, hyDatum]

/-- A quotient has the sign in which its two parts differ. -/
theorem signed_div_signed (s t : Bool) (p q : ℚ) :
    signed s p / signed t q = signed (s != t) (p / q) := by
  cases s <;> cases t
  · rfl
  · exact div_neg p
  · exact neg_div q p
  · exact neg_div_neg_eq p q

/-- A quotient is the exact one, rounded once. -/
theorem div_rounds {x y : Binary64} {p q : ℚ} (hx : x.rational? = some p)
    (hy : y.rational? = some q) (hq : q ≠ 0) : (x / y).Rounds (p / q) := by
  obtain ⟨s, m, e, hxDatum, rfl⟩ := datum_of_rational hx
  obtain ⟨t, n, f, hyDatum, rfl⟩ := datum_of_rational hy
  have hn : n ≠ 0 := by
    rintro rfl
    cases t <;> simp [signed] at hq
  have hscaled := scaled_ratio m n (f - e)
  rw [neg_sub, zpow_sub₀ two_ne_zero, div_mul_div_comm] at hscaled
  rw [signed_div_signed, ← hscaled]
  refine ⟨s != t, m * Nat.pow 2 (e - f).toNat, n * Nat.pow 2 (f - e).toNat, ?_, ?_, rfl⟩
  · exact Nat.mul_ne_zero hn (Nat.pow_pos Nat.two_pos).ne'
  · change div x y = _
    rw [div, hxDatum, hyDatum]
    exact if_neg hn

/-- Moving a number to a lower exponent does not change it. -/
theorem aligned_eq {e exponent : Int} (h : e ≤ exponent) (negative : Bool) (m : Nat) :
    (alignedTo e negative m exponent : ℚ) * 2 ^ e = signed negative (m * 2 ^ exponent) := by
  have hmove : ((m * Nat.pow 2 (exponent - e).toNat : ℤ) : ℚ) * 2 ^ e = m * 2 ^ exponent := by
    simp only [Nat.pow_eq]
    push_cast
    rw [mul_assoc, ← zpow_natCast, ← zpow_add₀ two_ne_zero]
    congr 2
    omega
  cases negative with
  | false => exact hmove
  | true =>
      rw [alignedTo, if_pos rfl, Int.cast_neg, neg_mul, hmove]
      rfl

/-- A sum is the exact one, rounded once. -/
theorem add_rounds {x y : Binary64} {p q : ℚ} (hx : x.rational? = some p)
    (hy : y.rational? = some q) : (x + y).Rounds (p + q) := by
  obtain ⟨s, m, e, hxDatum, rfl⟩ := datum_of_rational hx
  obtain ⟨t, n, f, hyDatum, rfl⟩ := datum_of_rational hy
  rw [← aligned_eq (min_le_left e f), ← aligned_eq (min_le_right e f), ← add_mul]
  change (add x y).Rounds _
  rw [add, hxDatum, hyDatum]
  dsimp only
  rw [← Int.cast_add]
  generalize alignedTo (min e f) s m e + alignedTo (min e f) t n f = total
  split
  · next hzero =>
      refine ⟨s && t, 0, 1, one_ne_zero, rfl, ?_⟩
      rw [hzero]
      cases s && t <;> simp [signed]
  · have hsum := of_dyadic_rounds (total < 0) total.natAbs (min e f)
    rwa [signed_mul, signed_nat_abs] at hsum

/-- A number that is not negative, without its fraction, is its floor. -/
theorem truncated_eq (m : Nat) (e : Int) : (truncated m e : ℤ) = ⌊(m : ℚ) * 2 ^ e⌋ := by
  rw [← dyadic_ratio, truncated]
  exact (Rat.floor_natCast_div_natCast _ _).symm

/-- The integer part of a number that is not negative. -/
theorem truncate_of_rational {x : Binary64} {q : ℚ} (h : x.rational? = some q) (hq : 0 ≤ q)
    (bottom top : Int) : x.truncate bottom top = max bottom (min top ⌊q⌋) := by
  obtain ⟨negative, m, e, hdatum, rfl⟩ := datum_of_rational h
  rw [truncate, hdatum]
  cases negative with
  | false => simp only [Bool.false_eq_true, if_false, truncated_eq]; rfl
  | true =>
      have hzero : (m : ℚ) * 2 ^ e = 0 := by
        have hpos : (0 : ℚ) ≤ m * 2 ^ e := by positivity
        exact le_antisymm (neg_nonneg.1 hq) hpos
      simp [truncated_eq, hzero, signed]

end EngineLink.Binary64
