import EngineLink.Decimal.Shortest
import EngineLink.Proofs.Binary64.Rounding
import EngineLink.Proofs.Text.Numerals

/-!
# The size of a shortest decimal

The shortest decimal of a number has a coefficient that fits into 64 bits. Where it is a whole
number it is not above the reals that round to the number, because one of the grids that are tried
is finer than their interval.

Read `Interval.contains_iff` and `Interval.nearest_of_fine` first; `shortest_bounds` is the result.
-/

namespace EngineLink.Decimal

/-- A power of ten is positive. -/
theorem power_pos (k : Int) : (0 : ℚ) < 10 ^ k :=
  zpow_pos (by norm_num) k

/-- A decimal as a quotient of natural numbers. -/
theorem decimal_ratio (n : Nat) (k : Int) :
    ((n * Nat.pow 10 k.toNat : ℕ) : ℚ) / (Nat.pow 10 (-k).toNat : ℕ) = n * 10 ^ k := by
  have hsplit := Binary64.split_power (by decide : 10 ≠ 0) n 1 (-k)
  rwa [neg_neg, Nat.one_mul, Nat.cast_one, div_one] at hsplit

namespace Interval

variable {i : Interval}

/-! ## What lies in an interval -/

/-- A decimal in an interval lies between its ends. -/
theorem contains_iff (i : Interval) (n : Nat) (k : Int) : i.contains n k ↔
    if i.closed then (i.low : ℚ) ≤ n * 10 ^ k * i.unit ∧ (n : ℚ) * 10 ^ k * i.unit ≤ i.high
    else (i.low : ℚ) < n * 10 ^ k * i.unit ∧ (n : ℚ) * 10 ^ k * i.unit < i.high := by
  have hscale : (0 : ℚ) < (Nat.pow 10 (-k).toNat : ℕ) := by
    exact_mod_cast Nat.pow_pos (by decide : 0 < 10)
  have hpoint : (n * 10 ^ k * i.unit : ℚ) =
      (n * Nat.pow 10 k.toNat * i.unit : ℕ) / (Nat.pow 10 (-k).toNat : ℕ) := by
    rw [← decimal_ratio, Nat.cast_mul _ i.unit, div_mul_eq_mul_div]
  rw [contains, hpoint]
  split
  · rw [le_div_iff₀ hscale, div_le_iff₀ hscale, Bool.and_eq_true, decide_eq_true_iff,
      decide_eq_true_iff]
    exact_mod_cast Iff.rfl
  · rw [lt_div_iff₀ hscale, div_lt_iff₀ hscale, Bool.and_eq_true, decide_eq_true_iff,
      decide_eq_true_iff]
    exact_mod_cast Iff.rfl

/-- A decimal in an interval is not beyond its ends. -/
theorem bounds_of_contains {n : Nat} {k : Int} (h : i.contains n k) :
    (i.low : ℚ) ≤ n * 10 ^ k * i.unit ∧ (n : ℚ) * 10 ^ k * i.unit ≤ i.high := by
  rw [contains_iff] at h
  split at h
  · exact h
  · exact ⟨h.1.le, h.2.le⟩

/-- A decimal strictly between the ends of an interval is in it. -/
theorem contains_of_between {n : Nat} {k : Int} (hlow : (i.low : ℚ) < n * 10 ^ k * i.unit)
    (hhigh : (n : ℚ) * 10 ^ k * i.unit < i.high) : i.contains n k := by
  rw [contains_iff]
  split
  · exact ⟨hlow.le, hhigh.le⟩
  · exact ⟨hlow, hhigh⟩

/-! ## Grids -/

/-- The nearest decimal of a grid is in the interval if there is one. -/
theorem contains_of_nearest {k : Int} {n : Nat} (h : i.nearest? k = some n) : i.contains n k := by
  simp only [nearest?] at h
  generalize i.value * Nat.pow 10 (-k).toNat / (i.unit * Nat.pow 10 k.toNat) = under at h
  generalize i.value * Nat.pow 10 (-k).toNat % (i.unit * Nat.pow 10 k.toNat) = rest at h
  split at h
  · next hboth =>
      simp only [Bool.and_eq_true] at hboth
      split at h
      · exact Option.some.inj h ▸ hboth.1.2
      · exact Option.some.inj h ▸ hboth.2
  · split at h
    · next hunder =>
        simp only [Bool.and_eq_true] at hunder
        exact Option.some.inj h ▸ hunder.2
    · split at h
      · next hover => exact Option.some.inj h ▸ hover
      · cases h

/-- The multiple of a power of ten below the value is less than one power away from it. -/
theorem under_bounds (hunit : i.unit ≠ 0) (k : Int) :
    let under := i.value * Nat.pow 10 (-k).toNat / (i.unit * Nat.pow 10 k.toNat)
    (under : ℚ) * 10 ^ k * i.unit ≤ i.value ∧
      (i.value : ℚ) < under * 10 ^ k * i.unit + 10 ^ k * i.unit := by
  intro under
  have hden : 0 < i.unit * Nat.pow 10 k.toNat :=
    Nat.mul_pos (Nat.pos_of_ne_zero hunit) (Nat.pow_pos (by decide))
  have hweight : (0 : ℚ) < 10 ^ k * i.unit :=
    mul_pos (power_pos k) (Nat.cast_pos.2 (Nat.pos_of_ne_zero hunit))
  have hfloor : (under : ℤ) = ⌊(i.value : ℚ) / (10 ^ k * i.unit)⌋ := by
    have hsplit := Binary64.split_power (by decide : 10 ≠ 0) i.value i.unit k
    rw [zpow_neg, ← div_eq_mul_inv, div_div, mul_comm (i.unit : ℚ)] at hsplit
    rw [← Nat.cast_ofNat, ← hsplit]
    exact (Rat.floor_natCast_div_natCast _ _).symm
  constructor
  · have hle := Int.floor_le ((i.value : ℚ) / (10 ^ k * i.unit))
    rw [← hfloor, le_div_iff₀ hweight] at hle
    rw [mul_assoc]
    exact_mod_cast hle
  · have hlt := Int.lt_floor_add_one ((i.value : ℚ) / (10 ^ k * i.unit))
    rw [← hfloor, div_lt_iff₀ hweight] at hlt
    rw [mul_assoc, ← add_one_mul]
    exact_mod_cast hlt

/-- A grid that is finer than the interval below the value has a point in it. -/
theorem nearest_of_fine (hunit : i.unit ≠ 0) {k : Int}
    (hfine : (i.low : ℚ) + 10 ^ k * i.unit ≤ i.value) (hhigh : i.value < i.high) :
    i.nearest? k ≠ none := by
  obtain ⟨hle, hlt⟩ := under_bounds hunit k
  have hweight : (0 : ℚ) ≤ 10 ^ k * i.unit := mul_nonneg (power_pos k).le (Nat.cast_nonneg _)
  simp only [nearest?]
  generalize i.value * Nat.pow 10 (-k).toNat / (i.unit * Nat.pow 10 k.toNat) = under at hle hlt ⊢
  generalize i.value * Nat.pow 10 (-k).toNat % (i.unit * Nat.pow 10 k.toNat) = rest
  have hlow : (i.low : ℚ) < under * 10 ^ k * i.unit := by linarith
  have hfits : i.contains under k :=
    contains_of_between hlow (hle.trans_lt (Nat.cast_lt.2 hhigh))
  have hpos : 0 < under := by
    rw [Nat.pos_iff_ne_zero]
    rintro rfl
    rw [Nat.cast_zero, zero_mul, zero_mul] at hlow
    exact absurd hlow (not_lt.2 (Nat.cast_nonneg _))
  simp only [hfits, hpos, decide_true, Bool.true_and, if_true]
  split
  · split <;> exact Option.some_ne_none _
  · exact Option.some_ne_none _

/-- The grids that are tried run from the first downward. -/
theorem contains_of_first_hit {tries : Nat} {start k : Int} {n : Nat}
    (h : i.firstHit tries start = some (n, k)) : i.contains n k ∧ start < k + tries := by
  fun_induction i.firstHit tries start with
  | case1 => cases h
  | case2 tries start n hnearest =>
      cases h
      exact ⟨contains_of_nearest hnearest, by omega⟩
  | case3 tries start hnearest ih =>
      obtain ⟨hcontains, hstart⟩ := ih h
      exact ⟨hcontains, by omega⟩

/-- The search finds a decimal if one of the grids that it tries has one. -/
theorem first_hit_of_nearest {tries : Nat} {start k : Int} (h : i.nearest? k ≠ none)
    (hstart : k ≤ start) (htries : start < k + tries) : i.firstHit tries start ≠ none := by
  fun_induction i.firstHit tries start with
  | case1 => omega
  | case2 => exact Option.some_ne_none _
  | case3 tries start hnearest ih =>
      have hne : k ≠ start := by
        rintro rfl
        exact h hnearest
      exact ih (by omega) (by omega)

/-! ## Places -/

/-- A number that is not zero has as many digits as its power of ten says. -/
theorem digits_bounds {n : Nat} (hn : n ≠ 0) :
    10 ^ ((Text.digits n).length - 1) ≤ n ∧ n < 10 ^ (Text.digits n).length := by
  rw [Text.digits_eq_to_digits]
  have hiff {k : Nat} (hk : 0 < k) : (Nat.toDigits 10 n).length ≤ k ↔ n < 10 ^ k :=
    Nat.length_toDigits_le_iff (by decide) hk
  have hpos : 0 < (Nat.toDigits 10 n).length := Nat.length_toDigits_pos
  refine ⟨?_, (hiff hpos).1 le_rfl⟩
  rcases Nat.eq_zero_or_pos ((Nat.toDigits 10 n).length - 1) with hone | hmore
  · rw [hone]
    exact Nat.pos_of_ne_zero hn
  · exact not_lt.1 fun hless => absurd ((hiff hmore).2 hless) (by omega)

/-- The places of a value bound it by a power of ten, which is the least one above it if it is not
below one. -/
theorem places_bounds (hunit : i.unit ≠ 0) (hvalue : i.value ≠ 0) :
    (i.value : ℚ) / i.unit ≤ 10 ^ i.places ∧
      (i.unit ≤ i.value → (10 : ℚ) ^ (i.places - 1) ≤ i.value / i.unit) := by
  have hunit' : (0 : ℚ) < i.unit := Nat.cast_pos.2 (Nat.pos_of_ne_zero hunit)
  have hvalue' : (0 : ℚ) < i.value := Nat.cast_pos.2 (Nat.pos_of_ne_zero hvalue)
  rw [places]
  split
  · next hle =>
      have hne : i.value / i.unit ≠ 0 :=
        (Nat.div_pos hle (Nat.pos_of_ne_zero hunit)).ne'
      obtain ⟨hlow, hhigh⟩ := digits_bounds hne
      generalize hlength : (Text.digits (i.value / i.unit)).length = length at hlow hhigh
      have hpos : length ≠ 0 := by
        rintro rfl
        exact hne (Nat.lt_one_iff.1 hhigh)
      constructor
      · rw [zpow_natCast, div_le_iff₀ hunit']
        have hless := Nat.lt_mul_of_div_lt hhigh (Nat.pos_of_ne_zero hunit)
        exact_mod_cast hless.le
      · intro _
        rw [show (length : ℤ) - 1 = ((length - 1 : ℕ) : ℤ) by omega, zpow_natCast,
          le_div_iff₀ hunit']
        exact_mod_cast (Nat.mul_le_mul_right _ hlow).trans (Nat.div_mul_le_self _ _)
  · next hlt =>
      refine ⟨?_, fun hle => absurd hle hlt⟩
      have hne : i.unit / i.value ≠ 0 :=
        (Nat.div_pos (not_le.1 hlt).le (Nat.pos_of_ne_zero hvalue)).ne'
      obtain ⟨hlow, hhigh⟩ := digits_bounds hne
      generalize hlength : (Text.digits (i.unit / i.value)).length = length at hlow hhigh
      have hpos : length ≠ 0 := by
        rintro rfl
        exact hne (Nat.lt_one_iff.1 hhigh)
      rw [show (length : ℤ) - 1 = ((length - 1 : ℕ) : ℤ) by omega, zpow_neg, zpow_natCast,
        div_le_iff₀ hunit', ← div_eq_inv_mul, le_div_iff₀ (by positivity), mul_comm]
      exact_mod_cast (Nat.mul_le_mul_right _ hlow).trans (Nat.div_mul_le_self _ _)

/-- The places of a whole number between two powers of ten. -/
theorem places_eq {k : Nat} (hlow : i.unit * 10 ^ k ≤ i.value)
    (hhigh : i.value < i.unit * 10 ^ (k + 1)) : i.places = k + 1 := by
  have hunit : 0 < i.unit := Nat.pos_of_lt_mul_right hhigh
  have hbelow : 10 ^ k ≤ i.value / i.unit := by
    rwa [Nat.le_div_iff_mul_le hunit, Nat.mul_comm]
  have habove : i.value / i.unit < 10 ^ (k + 1) := Nat.div_lt_of_lt_mul hhigh
  have hpos : 0 < 10 ^ k := Nat.pow_pos (by decide)
  obtain ⟨hlower, hupper⟩ := digits_bounds (hpos.trans_le hbelow).ne'
  have hless := (Nat.pow_lt_pow_iff_right (by decide)).1 (hbelow.trans_lt hupper)
  have hmore := (Nat.pow_lt_pow_iff_right (by decide)).1 (hlower.trans_lt habove)
  rw [places, if_pos ((Nat.le_mul_of_pos_right _ hpos).trans hlow)]
  omega

/-! ## The interval of a dyadic number -/

section
variable (m : Nat) (e : Int)

/-- The common denominator of an interval is not zero. -/
theorem of_dyadic_unit_ne : (ofDyadic m e).unit ≠ 0 :=
  Nat.mul_ne_zero (by decide) (Nat.pow_pos Nat.two_pos).ne'

/-- The units of a multiple of a quarter of the weight of the last bit. -/
theorem of_dyadic_quarters (n : Nat) :
    ((n * Nat.pow 2 e.toNat : ℕ) : ℚ) = n / 4 * 2 ^ e * (ofDyadic m e).unit := by
  have hden : ((Nat.pow 2 (-e).toNat : ℕ) : ℚ) ≠ 0 := by
    exact_mod_cast (Nat.pow_pos Nat.two_pos).ne'
  have hratio := Binary64.dyadic_ratio n e
  rw [div_eq_iff hden] at hratio
  have hunit : ((ofDyadic m e).unit : ℚ) = 4 * (Nat.pow 2 (-e).toNat : ℕ) := by
    exact_mod_cast rfl
  rw [hratio, hunit]
  ring

/-- The common denominator of an interval is positive as a rational number. -/
theorem of_dyadic_unit_pos : (0 : ℚ) < (ofDyadic m e).unit :=
  Nat.cast_pos.2 (Nat.pos_of_ne_zero (of_dyadic_unit_ne m e))

/-- The value of an interval is its number in units of the common denominator. -/
theorem of_dyadic_value : ((ofDyadic m e).value : ℚ) = m * 2 ^ e * (ofDyadic m e).unit := by
  refine (of_dyadic_quarters m e (4 * m)).trans ?_
  push_cast
  ring

/-- The value of an interval over its common denominator is its number. -/
theorem of_dyadic_ratio : ((ofDyadic m e).value : ℚ) / (ofDyadic m e).unit = m * 2 ^ e :=
  (div_eq_iff (of_dyadic_unit_pos m e).ne').2 (of_dyadic_value m e)

/-- The upper end of an interval lies half a unit of the last bit above its number. -/
theorem of_dyadic_high :
    ((ofDyadic m e).high : ℚ) = (m + 1 / 2) * 2 ^ e * (ofDyadic m e).unit := by
  refine (of_dyadic_quarters m e (4 * m + 2)).trans ?_
  push_cast
  ring

variable {m} (hm : m ≠ 0)
include hm

/-- An interval around a number that is not zero does not have the value zero. -/
theorem of_dyadic_value_ne : (ofDyadic m e).value ≠ 0 :=
  Nat.mul_ne_zero (Nat.mul_ne_zero (by decide) hm) (Nat.pow_pos Nat.two_pos).ne'

/-- An interval around a number that is not zero does not reach down to zero. -/
theorem of_dyadic_low_ne : (ofDyadic m e).low ≠ 0 := by
  refine Nat.mul_ne_zero (Nat.sub_ne_zero_of_lt ?_) (Nat.pow_pos Nat.two_pos).ne'
  split <;> omega

/-- The interval reaches at least a quarter of the weight of the last bit below its number. -/
theorem of_dyadic_low :
    ((ofDyadic m e).low : ℚ) + 1 / 4 * 2 ^ e * (ofDyadic m e).unit ≤ (ofDyadic m e).value := by
  have hquarter := of_dyadic_quarters m e 1
  rw [Nat.cast_one, Nat.one_mul] at hquarter
  rw [← hquarter]
  have hbelow : (ofDyadic m e).low ≤ (4 * m - 1) * Nat.pow 2 e.toNat := by
    refine Nat.mul_le_mul_right _ (Nat.sub_le_sub_left ?_ _)
    split <;> decide
  have hsum : (ofDyadic m e).low + Nat.pow 2 e.toNat ≤ (ofDyadic m e).value := by
    refine (Nat.add_le_add_right hbelow _).trans_eq ?_
    rw [← Nat.succ_mul, show (4 * m - 1).succ = 4 * m by omega]
    rfl
  exact_mod_cast hsum

end

end Interval

/-! ## The shortest decimal -/

/-- Factors of ten that are moved do not change a decimal. -/
theorem normalise_eq (steps n : Nat) (k : Int) :
    (normalise steps n k).1 ≤ n ∧ k ≤ (normalise steps n k).2 ∧
      ((normalise steps n k).1 : ℚ) * 10 ^ (normalise steps n k).2 = n * 10 ^ k := by
  fun_induction normalise steps n k with
  | case1 => exact ⟨le_rfl, le_rfl, rfl⟩
  | case2 steps n k h ih =>
      obtain ⟨hless, hmore, hvalue⟩ := ih
      have hten : ((n / 10 : ℕ) : ℚ) * 10 = n := by
        exact_mod_cast Nat.div_mul_cancel (Nat.dvd_of_mod_eq_zero h.1)
      refine ⟨hless.trans (Nat.div_le_self n 10), (by omega : k ≤ k + 1).trans hmore,
        hvalue.trans ?_⟩
      rw [zpow_add_one₀ (by norm_num), mul_comm ((10 : ℚ) ^ k), ← mul_assoc, hten]
  | case3 => exact ⟨le_rfl, le_rfl, rfl⟩

/-- The weight of the first place of a number of at most 53 bits is less than a quarter of that of
its last bit on the last grid that is tried. -/
theorem last_grid_fine {m : Nat} {places e : Int} (hbits : m < 2 ^ 53)
    (h : (10 : ℚ) ^ (places - 1) ≤ m * 2 ^ e) : (10 : ℚ) ^ (places - 18) ≤ 1 / 4 * 2 ^ e := by
  have hweight : (0 : ℚ) < 2 ^ e := zpow_pos two_pos e
  have hsplit : (10 : ℚ) ^ (places - 1) = 10 ^ (places - 18) * 10 ^ 17 := by
    rw [← zpow_natCast, ← zpow_add₀ (by norm_num)]
    congr 1
    ring
  have hless : (m : ℚ) * 2 ^ e ≤ 2 ^ 53 * 2 ^ e := by
    refine mul_le_mul_of_nonneg_right ?_ hweight.le
    exact_mod_cast hbits.le
  rw [hsplit] at h
  norm_num at h hless ⊢
  linarith

/-- Among the grids that are tried for a whole number one is fine enough. -/
theorem first_hit_of_whole {m : Nat} {e : Int} (hm : m ≠ 0) (hbits : m < 2 ^ 53) (he : 0 ≤ e) :
    (Interval.ofDyadic m e).firstHit 20 ((Interval.ofDyadic m e).places + 1) ≠ none := by
  have hunit := Interval.of_dyadic_unit_ne m e
  have hunit' := Interval.of_dyadic_unit_pos m e
  have hratio := Interval.of_dyadic_ratio m e
  have hone : ((Interval.ofDyadic m e).unit : ℚ) ≤ (Interval.ofDyadic m e).value := by
    rw [← one_le_div₀ hunit', hratio]
    refine one_le_mul_of_one_le_of_one_le ?_ (one_le_zpow₀ one_le_two he)
    exact_mod_cast Nat.one_le_iff_ne_zero.2 hm
  have hplaces := (Interval.places_bounds hunit (Interval.of_dyadic_value_ne e hm)).2
    (Nat.cast_le.1 hone)
  rw [hratio] at hplaces
  have hfine := mul_le_mul_of_nonneg_right (last_grid_fine hbits hplaces) hunit'.le
  refine Interval.first_hit_of_nearest (Interval.nearest_of_fine hunit
    ((add_le_add_right hfine _).trans (Interval.of_dyadic_low e hm)) ?_) (by omega) (by omega)
  rw [← Nat.cast_lt (α := ℚ), Interval.of_dyadic_value, Interval.of_dyadic_high]
  refine mul_lt_mul_of_pos_right (mul_lt_mul_of_pos_right ?_ (zpow_pos two_pos e)) hunit'
  exact lt_add_of_pos_right _ (by norm_num)

section
variable {m n : Nat} {e k : Int} (h : (Interval.ofDyadic m e).contains n k)
include h

/-- A decimal in the interval of a number is at most half of the weight of the last bit above it. -/
theorem decimal_le_of_contains : (n : ℚ) * 10 ^ k ≤ (m + 1 / 2) * 2 ^ e := by
  have hhigh := (Interval.bounds_of_contains h).2
  rw [Interval.of_dyadic_high] at hhigh
  exact le_of_mul_le_mul_right hhigh (Interval.of_dyadic_unit_pos m e)

/-- A decimal in the interval of a number that is not zero is positive. -/
theorem decimal_pos_of_contains (hm : m ≠ 0) : (0 : ℚ) < n * 10 ^ k := by
  have hlow := (Interval.bounds_of_contains h).1
  refine pos_of_mul_pos_left ((?_ : (0 : ℚ) < _).trans_le hlow)
    (Interval.of_dyadic_unit_pos m e).le
  exact Nat.cast_pos.2 (Nat.pos_of_ne_zero (Interval.of_dyadic_low_ne e hm))

/-- A decimal on a grid that is tried has a coefficient of 64 bits. -/
theorem coefficient_le_of_contains (hm : m ≠ 0)
    (hplaces : (Interval.ofDyadic m e).places ≤ k + 18) : n ≤ 2 * 10 ^ 18 := by
  have hle := decimal_le_of_contains h
  have hvalue := (Interval.places_bounds (Interval.of_dyadic_unit_ne m e)
    (Interval.of_dyadic_value_ne e hm)).1
  rw [Interval.of_dyadic_ratio] at hvalue
  have hgrid : (10 : ℚ) ^ (Interval.ofDyadic m e).places ≤ 10 ^ k * 10 ^ 18 := by
    rw [← zpow_natCast, ← zpow_add₀ (by norm_num)]
    exact zpow_le_zpow_right₀ (by norm_num) hplaces
  have hm' : (1 : ℚ) ≤ m := by exact_mod_cast Nat.one_le_iff_ne_zero.2 hm
  have hhalf : ((m : ℚ) + 1 / 2) * 2 ^ e ≤ 2 * (m * 2 ^ e) := by
    rw [← mul_assoc]
    exact mul_le_mul_of_nonneg_right (by linarith) (zpow_nonneg two_pos.le e)
  have hcast : (n : ℚ) * 10 ^ k ≤ (2 * 10 ^ 18 : ℕ) * 10 ^ k := by
    push_cast
    linarith
  exact_mod_cast le_of_mul_le_mul_right hcast (power_pos k)

end

/-- The first place of a number that is not zero is not far behind the point. -/
theorem places_ge {m : Nat} {e : Int} (hm : m ≠ 0) (he : Binary64.minExponent ≤ e) :
    -324 < (Interval.ofDyadic m e).places := by
  have hvalue := (Interval.places_bounds (Interval.of_dyadic_unit_ne m e)
    (Interval.of_dyadic_value_ne e hm)).1
  rw [Interval.of_dyadic_ratio] at hvalue
  have hm' : (1 : ℚ) ≤ m := by exact_mod_cast Nat.one_le_iff_ne_zero.2 hm
  have hleast : (2 : ℚ) ^ (-1074 : ℤ) ≤ m * 2 ^ e :=
    (zpow_le_zpow_right₀ one_le_two he).trans
      (le_mul_of_one_le_left (zpow_nonneg two_pos.le e) hm')
  have hpower : (10 : ℚ) ^ (-324 : ℤ) < 2 ^ (-1074 : ℤ) := by
    rw [zpow_neg, zpow_neg, inv_lt_inv₀ (power_pos 324) (zpow_pos two_pos _)]
    exact_mod_cast (by decide +kernel : 2 ^ 1074 < 10 ^ 324)
  exact (zpow_lt_zpow_iff_right₀ (by norm_num)).1 (hpower.trans_le (hleast.trans hvalue))

/-- The coefficient of a shortest decimal is not zero and fits into 64 bits, its exponent is not far
below zero, and where it is a whole number it is at most half of the weight of the last bit above
its number. -/
theorem shortest_bounds {m : Nat} (hm : m ≠ 0) (hbits : m < 2 ^ 53) {e : Int}
    (he : Binary64.minExponent ≤ e) :
    ((shortest m e).1 ≠ 0 ∧ (shortest m e).1 ≤ 2 * 10 ^ 18) ∧
      Binary64.minExponent ≤ (shortest m e).2 ∧ (0 ≤ (shortest m e).2 →
        ((shortest m e).1 : ℚ) * 10 ^ (shortest m e).2 ≤ (m + 1 / 2) * 2 ^ e) := by
  rw [shortest, if_neg hm]
  dsimp only
  split
  · next n k hhit =>
      obtain ⟨hcontains, hstart⟩ := Interval.contains_of_first_hit hhit
      obtain ⟨hless, hmore, hvalue⟩ := normalise_eq 20 n k
      have hplaces := places_ge hm he
      refine ⟨⟨fun hzero => ?_, ?_⟩, ?_, fun _ => ?_⟩
      · rw [hzero, Nat.cast_zero, zero_mul] at hvalue
        exact (decimal_pos_of_contains hcontains hm).ne hvalue
      · exact hless.trans (coefficient_le_of_contains hcontains hm (by omega))
      · rw [Binary64.minExponent]
        omega
      · exact hvalue.trans_le (decimal_le_of_contains hcontains)
  · next hnone =>
      refine ⟨⟨hm, hbits.le.trans (by decide)⟩, he, fun hwhole => ?_⟩
      exact absurd hnone (first_hit_of_whole hm hbits hwhole)

end EngineLink.Decimal
