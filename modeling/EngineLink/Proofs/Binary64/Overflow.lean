import EngineLink.Proofs.Binary64.Whole

/-!
# Results below the infinities

An exact result rounds to a finite number as long as it is less than half a unit above the largest
one, and a result that is not below one is then off by a small part of itself only.

Read `overflow` first, then `Rounds.below_overflow`.
-/

namespace EngineLink.Binary64

/-- The least magnitude that rounds to an infinity, half a unit above the largest number. -/
def overflow : ℚ :=
  (2 ^ 54 - 1) * 2 ^ (970 : ℤ)

/-- Where rounding overflows is below the power of two behind the largest finite number. -/
theorem overflow_lt : overflow < 2 ^ (1024 : ℤ) := by
  rw [show (1024 : ℤ) = 54 + 970 by decide, zpow_add₀ two_ne_zero]
  exact mul_lt_mul_of_pos_right (by norm_num) (zpow_pos two_pos _)

/-- The significand of a quotient below the overflow does not reach the infinities. -/
theorem finite_of_ratio {num den : Nat} (hnum : num ≠ 0) (hden : den ≠ 0)
    (h : (num : ℚ) / den < overflow) : (ratioExponent num den - minExponent).toNat * leastNormal +
      ratioSignificand num den < infinityBits := by
  obtain ⟨hbits, -⟩ := ratio_significand_bounds hnum hden
  have hexponent := ratio_exponent_le hnum hden (by decide) (h.trans overflow_lt)
  have herror := (abs_le.1 (ratio_error num hden)).2
  rcases Int.lt_or_eq_of_le hexponent with hless | htop
  · have hsmall : (ratioExponent num den - minExponent).toNat ≤ 2044 := by
      rw [minExponent]
      omega
    simp only [leastNormal, infinityBits] at hbits ⊢
    omega
  · -- at the greatest exponent half a unit is just what the overflow leaves
    rw [htop, show (1024 - 53 : ℤ) = 970 + 1 by decide, zpow_add_one₀ two_ne_zero] at herror
    have hrounded : (ratioSignificand num den : ℚ) < (2 ^ 53 : ℕ) := by
      refine lt_of_mul_lt_mul_right ?_ (zpow_pos two_pos 970).le
      rw [overflow] at h
      norm_num only [Nat.cast_pow, Nat.cast_ofNat] at h ⊢
      linarith
    rw [htop]
    have hsignificand := Nat.cast_lt.1 hrounded
    simp only [leastNormal, infinityBits, minExponent]
    omega

/-- A result below the overflow rounds to a finite number, and one that is not below one is off by
at most half of the weight of its fifty-third bit. -/
theorem Rounds.below_overflow {x : Binary64} {exact : ℚ} (h : x.Rounds exact)
    (hbound : |exact| < overflow) :
    ∃ q, x.rational? = some q ∧ (1 ≤ |exact| → |q| ≤ |exact| * (1 + 1 / 2 ^ 53)) := by
  obtain ⟨negative, num, den, hden, rfl, rfl⟩ := h
  have hratio : |signed negative ((num : ℚ) / den)| = num / den := by
    rw [abs_signed, abs_of_nonneg (by positivity)]
  rw [hratio] at hbound ⊢
  by_cases hnum : num = 0
  · refine ⟨signed negative 0, ?_, ?_⟩
    · rw [ofRatio, if_pos hnum, rational_zero]
    · rw [hnum, Nat.cast_zero, zero_div]
      exact fun hone => absurd hone (not_le.2 one_pos)
  · refine ⟨_, rational_of_finite_ratio negative hnum hden (finite_of_ratio hnum hden hbound), ?_⟩
    intro hone
    obtain ⟨-, hbelow, habove⟩ := ratio_exponent_bounds hnum hden
    have hnormal : ratioExponent num den ≠ minExponent := by
      intro hmin
      rw [hmin] at hbelow
      exact absurd (hone.trans_lt hbelow)
        (not_lt.2 (zpow_le_one_of_nonpos₀ one_le_two (by decide)))
    have hweight := habove hnormal
    have herror := (abs_le.1 (ratio_error num hden)).2
    rw [zpow_add₀ two_ne_zero] at hweight
    rw [abs_signed, abs_of_nonneg (by positivity)]
    norm_num at hweight ⊢
    linarith

/-- A finite number has at most 53 bits, the last of them between the least and the greatest
exponent. -/
theorem datum_bounds {x : Binary64} {negative : Bool} {m : Nat} {e : Int}
    (h : x.datum = .finite negative m e) : m < 2 ^ 53 ∧ minExponent ≤ e ∧ e ≤ 971 := by
  have hfinite := magnitude_lt_of_datum h
  rw [datum, if_neg hfinite.ne, if_neg hfinite.not_gt] at h
  generalize x.magnitudeBits = magnitude at h hfinite
  split at h
  · next hsmall =>
      cases h
      simp only [leastNormal, minExponent] at hsmall ⊢
      omega
  · next hlarge =>
      cases h
      simp only [infinityBits, leastNormal, minExponent] at hlarge hfinite ⊢
      omega

end EngineLink.Binary64
