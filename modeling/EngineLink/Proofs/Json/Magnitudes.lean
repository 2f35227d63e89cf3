import EngineLink.Json.Reader
import EngineLink.Proofs.Binary64.Overflow
import EngineLink.Proofs.Decimal.Integers
import EngineLink.Proofs.Decimal.Shortest

/-!
# Printed numbers are in range

The reader scales a coefficient by a power of ten, both rounded, and refuses a product that is
infinite. The shortest decimal of a number is not refused: what the three roundings add does not
take it past the largest number. This leaves out the two largest numbers themselves, whose decimals
are computed.

Read `scaled_of_bound` first; `scaled_of_shortest` is the result.
-/

namespace EngineLink.Json

/-- The factor by which two roundings may enlarge a result. -/
def twoRoundings : ℚ :=
  (1 + 1 / 2 ^ 53) * (1 + 1 / 2 ^ 53)

/-- The factor for two roundings makes nothing smaller. -/
theorem one_le_two_roundings : 1 ≤ twoRoundings := by
  norm_num [twoRoundings]

/-- The powers of ten that a scaled number is made with are the exact ones, rounded once. -/
theorem power_of_ten_rounds {k : Nat} (hk : k ≤ maxPower) :
    (powerOfTen k).Rounds ((10 : ℚ) ^ k) := by
  have hdigits : (Text.digits 1).length = 1 := by
    rw [Text.digits_eq_to_digits]
    rfl
  have hrounds := Decimal.to_binary64_rounds false 1 k (by
    rw [maxPower] at hk
    rw [hdigits, Decimal.underflowPlaces, Decimal.overflowPlaces]
    omega)
  rw [Nat.cast_one, one_mul, zpow_natCast] at hrounds
  exact hrounds

/-- No larger power of ten is below the overflow. -/
theorem le_max_power {k : Nat} (h : (10 : ℚ) ^ k < Binary64.overflow) : k ≤ maxPower := by
  by_contra hnot
  have hpower : 10 ^ (maxPower + 1) ≤ 10 ^ k := Nat.pow_le_pow_right (by decide) (not_le.1 hnot)
  have hless : (10 : ℚ) ^ k < 2 ^ 1024 := by
    rw [← zpow_natCast 2]
    exact h.trans Binary64.overflow_lt
  have hbits : 10 ^ k < 2 ^ 1024 := by exact_mod_cast hless
  exact absurd (hpower.trans_lt hbits) (by decide +kernel)

/-- A coefficient and a power of ten are accepted if their product stays below the overflow also
after both are rounded. -/
theorem scaled_of_bound {n k : Nat} (hn : n ≠ 0)
    (h : (n : ℚ) * 10 ^ k * twoRoundings < Binary64.overflow) :
    ∃ x, scaled? n k = some x := by
  have hcoefficient : (1 : ℚ) ≤ n := by exact_mod_cast Nat.one_le_iff_ne_zero.2 hn
  have hpower : (1 : ℚ) ≤ 10 ^ k := one_le_pow₀ (by norm_num)
  have hproduct : (n : ℚ) * 10 ^ k < Binary64.overflow :=
    (le_mul_of_one_le_right (by positivity) one_le_two_roundings).trans_lt h
  have hpowerLess := (le_mul_of_one_le_left (by positivity) hcoefficient).trans_lt hproduct
  have hcoefficientLess := (le_mul_of_one_le_right (by positivity) hpower).trans_lt hproduct
  have hk := le_max_power hpowerLess
  obtain ⟨p, hp, hpBound⟩ := (Binary64.of_int_rounds n).below_overflow
    (by simpa using hcoefficientLess)
  obtain ⟨q, hq, hqBound⟩ := (power_of_ten_rounds hk).below_overflow
    (by rwa [abs_of_pos (by positivity)])
  have hpBound := hpBound (by simpa using hcoefficient)
  have hqBound := hqBound (by rwa [abs_of_pos (by positivity)])
  rw [Int.cast_natCast, abs_of_pos (by positivity : (0 : ℚ) < n)] at hpBound
  rw [abs_of_pos (by positivity : (0 : ℚ) < 10 ^ k)] at hqBound
  have hfinite : (Binary64.ofInt n * powerOfTen k).isFinite := by
    have hrounded : |p * q| < Binary64.overflow := by
      rw [abs_mul]
      refine (mul_le_mul hpBound hqBound (abs_nonneg q) (by positivity)).trans_lt ?_
      rwa [mul_mul_mul_comm]
    obtain ⟨r, hr, -⟩ := (Binary64.mul_rounds hp hq).below_overflow hrounded
    exact Binary64.is_finite_of_rational hr
  refine ⟨Binary64.ofInt n * powerOfTen k, ?_⟩
  have hexponent : ¬ ((maxPower : ℤ) < (k : ℤ)) := by exact_mod_cast not_lt.2 hk
  simp only [scaled?, if_neg (Int.natCast_nonneg k).not_gt, if_neg hexponent, Int.toNat_natCast,
    hfinite, if_true]

/-! ## The two largest numbers -/

/-- A shortest decimal by the number of places and the first grid that is hit. -/
theorem shortest_of_hit {m n : Nat} {e places k : Int} (hm : m ≠ 0)
    (hplaces : (Decimal.Interval.ofDyadic m e).places = places)
    (hhit : (Decimal.Interval.ofDyadic m e).firstHit 20 (places + 1) = some (n, k)) :
    Decimal.shortest m e = Decimal.normalise 20 n k := by
  rw [Decimal.shortest, if_neg hm]
  simp only [hplaces, hhit]

/-- The shortest decimals of the two largest numbers are accepted. -/
theorem scaled_of_largest {m : Nat} (hlow : 0x1FFFFFFFFFFFFE ≤ m) (hbits : m < 2 ^ 53) :
    ∃ x, scaled? (Decimal.shortest m 971).1 (Decimal.shortest m 971).2 = some x := by
  rw [← Option.isSome_iff_exists]
  obtain rfl | rfl : m = 0x1FFFFFFFFFFFFE ∨ m = 0x1FFFFFFFFFFFFF := by omega
  · have hplaces : (Decimal.Interval.ofDyadic 0x1FFFFFFFFFFFFE 971).places = 309 :=
      Decimal.Interval.places_eq (by decide +kernel) (by decide +kernel)
    have hhit : (Decimal.Interval.ofDyadic 0x1FFFFFFFFFFFFE 971).firstHit 20 (309 + 1) =
        some (17976931348623155, 292) := by decide +kernel
    rw [shortest_of_hit (by decide) hplaces hhit]
    decide +kernel
  · have hplaces : (Decimal.Interval.ofDyadic 0x1FFFFFFFFFFFFF 971).places = 309 :=
      Decimal.Interval.places_eq (by decide +kernel) (by decide +kernel)
    have hhit : (Decimal.Interval.ofDyadic 0x1FFFFFFFFFFFFF 971).firstHit 20 (309 + 1) =
        some (17976931348623157, 292) := by decide +kernel
    rw [shortest_of_hit (by decide) hplaces hhit]
    decide +kernel

/-! ## Shortest decimals -/

/-- What is left below the overflow by every number but the two largest. -/
theorem below_overflow_of_not_largest {m : Nat} {e : Int} (hbits : m < 2 ^ 53) (he : e ≤ 971)
    (h : e = 971 → m < 0x1FFFFFFFFFFFFE) :
    ((m : ℚ) + 1 / 2) * 2 ^ e * twoRoundings < Binary64.overflow := by
  have hunit : (0 : ℚ) < 2 ^ (970 : ℤ) := zpow_pos two_pos _
  have hvalue : ((m : ℚ) + 1 / 2) * 2 ^ e ≤ (2 ^ 54 - 5) * 2 ^ (970 : ℤ) := by
    rcases Int.lt_or_eq_of_le he with hless | rfl
    · have hm : (m : ℚ) + 1 / 2 ≤ 2 ^ 54 - 5 := by
        have hcast : (m : ℚ) < 2 ^ 53 := by exact_mod_cast hbits
        linarith
      exact mul_le_mul hm (zpow_le_zpow_right₀ one_le_two (by omega)) (zpow_nonneg two_pos.le e)
        (by norm_num)
    · have hcast : (m : ℚ) + 3 ≤ 2 ^ 53 := by
        have := h rfl
        exact_mod_cast (by omega : m + 3 ≤ 2 ^ 53)
      rw [show (971 : ℤ) = 970 + 1 by decide, zpow_add_one₀ two_ne_zero,
        mul_comm ((2 : ℚ) ^ (970 : ℤ)), ← mul_assoc]
      exact mul_le_mul_of_nonneg_right (by linarith) hunit.le
  have hfactor : (0 : ℚ) ≤ twoRoundings := zero_le_one.trans one_le_two_roundings
  refine (mul_le_mul_of_nonneg_right hvalue hfactor).trans_lt ?_
  rw [Binary64.overflow, mul_right_comm]
  exact mul_lt_mul_of_pos_right (by norm_num [twoRoundings]) hunit

/-- The reader accepts the shortest decimal of a number. -/
theorem scaled_of_shortest {m : Nat} (hm : m ≠ 0) (hbits : m < 2 ^ 53) {e : Int}
    (hleast : Binary64.minExponent ≤ e) (he : e ≤ 971) :
    ∃ x, scaled? (Decimal.shortest m e).1 (Decimal.shortest m e).2 = some x := by
  obtain ⟨⟨hn, -⟩, -, hbound⟩ := Decimal.shortest_bounds hm hbits hleast
  by_cases hlargest : e = 971 ∧ 0x1FFFFFFFFFFFFE ≤ m
  · rw [hlargest.1]
    exact scaled_of_largest hlargest.2 hbits
  · rcases lt_or_ge (Decimal.shortest m e).2 0 with hnegative | hwhole
    · exact ⟨_, if_pos hnegative⟩
    · obtain ⟨k, hk⟩ := Int.eq_ofNat_of_zero_le hwhole
      have hvalue := hbound hwhole
      rw [hk] at hvalue ⊢
      rw [zpow_natCast] at hvalue
      have hfactor : (0 : ℚ) ≤ twoRoundings := zero_le_one.trans one_le_two_roundings
      refine scaled_of_bound hn ((mul_le_mul_of_nonneg_right hvalue hfactor).trans_lt ?_)
      exact below_overflow_of_not_largest hbits he fun hsame => by
        by_contra hnot
        exact hlargest ⟨hsame, not_lt.1 hnot⟩

end EngineLink.Json
