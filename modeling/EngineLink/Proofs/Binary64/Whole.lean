import EngineLink.Proofs.Binary64.Rounding

/-!
# Arithmetic of whole numbers

Sums, differences, products and integer parts of numbers that stand for integers are not changed by
rounding as long as they have at most 53 bits. Rounding does not take a fraction across an integer
either, if it moves the fraction by less than its distance to one.

Read `add_integers` and `floor_rounds` first, then `floor_near`.
-/

namespace EngineLink.Binary64

section
variable {x y : Binary64} {a b : Int} (hx : x.rational? = some (a : ℚ))
  (hy : y.rational? = some (b : ℚ))
include hx hy

/-- A sum of whole numbers is exact as long as it has at most 53 bits. -/
theorem add_integers (h : (a + b).natAbs < 2 ^ 53) :
    (x + y).rational? = some ((a + b : Int) : ℚ) := by
  refine Rounds.integer ?_ h
  rw [Int.cast_add]
  exact add_rounds hx hy

/-- A product of whole numbers is exact as long as it has at most 53 bits. -/
theorem mul_integers (h : (a * b).natAbs < 2 ^ 53) :
    (x * y).rational? = some ((a * b : Int) : ℚ) := by
  refine Rounds.integer ?_ h
  rw [Int.cast_mul]
  exact mul_rounds hx hy

end

/-- A number with a significand has a magnitude below that of infinity. -/
theorem magnitude_lt_of_datum {x : Binary64} {negative : Bool} {m : Nat} {e : Int}
    (h : x.datum = .finite negative m e) : x.magnitudeBits < infinityBits := by
  by_contra hnot
  rcases (not_lt.1 hnot).lt_or_eq with hmore | hsame
  · rw [datum, if_neg hmore.ne', if_pos hmore] at h
    cases h
  · rw [datum, if_pos hsame.symm] at h
    cases h

/-- A finite number has the sign of what it denotes, and the other sign denotes the same
magnitude. -/
theorem datum_of_sign {x : Binary64} {negative : Bool} {m : Nat} {e : Int}
    (h : x.datum = .finite negative m e) :
    x.isNegative = negative ∧
      ∀ sign, (ofMagnitude sign x.magnitudeBits).datum = .finite sign m e := by
  have hfinite := magnitude_lt_of_datum h
  have hdatum (sign : Bool) := datum_of_magnitude sign x.magnitudeBits hfinite
  rw [datum, if_neg hfinite.ne, if_neg hfinite.not_gt] at h
  split at h
  · next hsmall =>
      cases h
      exact ⟨rfl, fun sign => by rw [hdatum, if_pos hsmall]⟩
  · next hlarge =>
      cases h
      exact ⟨rfl, fun sign => by rw [hdatum, if_neg hlarge]⟩

/-- A number that is a rational one is finite. -/
theorem is_finite_of_rational {x : Binary64} {q : ℚ} (h : x.rational? = some q) : x.isFinite := by
  obtain ⟨negative, m, e, hdatum, -⟩ := datum_of_rational h
  exact decide_eq_true (magnitude_lt_of_datum hdatum)

/-- The sign bit of a positive number is not set. -/
theorem is_negative_of_pos {x : Binary64} {q : ℚ} (h : x.rational? = some q) (hq : 0 < q) :
    x.isNegative = false := by
  obtain ⟨negative, m, e, hdatum, rfl⟩ := datum_of_rational h
  rw [(datum_of_sign hdatum).1]
  cases negative with
  | false => rfl
  | true =>
      have hpos : (0 : ℚ) ≤ m * 2 ^ e := by positivity
      exact absurd hq (not_lt.2 (neg_nonpos.2 hpos))

/-- What a number denotes that stands for an integer and is no negative zero. -/
theorem datum_of_integer {x : Binary64} {n : Int} (hx : x.rational? = some (n : ℚ))
    (hzero : n = 0 → x.isNegative = false) :
    ∃ m e, x.datum = .finite (n < 0) m e ∧
      m * Nat.pow 2 e.toNat = n.natAbs * Nat.pow 2 (-e).toNat := by
  obtain ⟨negative, m, e, hdatum, hvalue⟩ := datum_of_rational hx
  have hweight : (0 : ℚ) ≤ m * 2 ^ e := by positivity
  have hsign : negative = decide (n < 0) := by
    cases negative with
    | false =>
        have hnonneg : (0 : ℚ) ≤ n := hweight.trans_eq hvalue.symm
        exact (decide_eq_false (not_lt.2 (Int.cast_nonneg_iff.1 hnonneg))).symm
    | true =>
        have hnonpos : (n : ℚ) ≤ 0 := hvalue.trans_le (neg_nonpos.2 hweight)
        -- the value alone does not tell the sign of a zero
        have hne : n ≠ 0 := by
          intro h
          exact Bool.false_ne_true ((hzero h).symm.trans (datum_of_sign hdatum).1)
        exact (decide_eq_true (lt_of_le_of_ne (Int.cast_nonpos.1 hnonpos) hne)).symm
  refine ⟨m, e, hsign ▸ hdatum, ?_⟩
  have habs : (n.natAbs : ℚ) = m * 2 ^ e := by
    rw [Nat.cast_natAbs, Int.cast_abs, hvalue, abs_signed, abs_of_nonneg hweight]
  rw [← dyadic_ratio, eq_div_iff (by exact_mod_cast (Nat.pow_pos Nat.two_pos).ne')] at habs
  exact_mod_cast habs.symm

/-- The other sign makes the opposite number. -/
theorem signed_not (negative : Bool) (q : ℚ) : signed (!negative) q = -signed negative q := by
  cases negative with
  | false => rfl
  | true => exact (neg_neg q).symm

/-- A number with its sign turned is the opposite one. -/
theorem neg_rational {x : Binary64} {q : ℚ} (h : x.rational? = some q) :
    x.neg.rational? = some (-q) := by
  obtain ⟨negative, m, e, hdatum, rfl⟩ := datum_of_rational h
  obtain ⟨hsign, hother⟩ := datum_of_sign hdatum
  rw [neg, hsign, rational_of_datum (hother _), signed_not]

/-- A difference is the exact one, rounded once. -/
theorem sub_rounds {x y : Binary64} {p q : ℚ} (hx : x.rational? = some p)
    (hy : y.rational? = some q) : (x - y).Rounds (p - q) := by
  rw [sub_eq_add_neg]
  exact add_rounds hx (neg_rational hy)

/-- The integer part of a negated number is that of the number, negated, or one less. -/
theorem floor_neg_eq {q : ℚ} {n : Nat} (hn : (n : ℤ) = ⌊q⌋) :
    ⌊-q⌋ = -((if (n : ℚ) = q then n else n + 1 : ℕ) : ℤ) := by
  have hlow : (n : ℚ) ≤ q := by
    exact_mod_cast hn ▸ Int.floor_le q
  have hhigh : q < n + 1 := by
    exact_mod_cast hn ▸ Int.lt_floor_add_one q
  rw [Int.floor_eq_iff]
  split
  · next hexact =>
      rw [← hexact]
      constructor <;> push_cast <;> linarith
  · next hinexact =>
      have hless : (n : ℚ) < q := lt_of_le_of_ne hlow hinexact
      constructor <;> push_cast <;> linarith

/-- An integer part is the exact one, rounded once. -/
theorem floor_rounds {x : Binary64} {q : ℚ} (h : x.rational? = some q) : x.floor.Rounds ⌊q⌋ := by
  obtain ⟨negative, m, e, hdatum, rfl⟩ := datum_of_rational h
  have hexact : truncated m e * Nat.pow 2 (-e).toNat = m * Nat.pow 2 e.toNat ↔
      (truncated m e : ℚ) = m * 2 ^ e := by
    rw [← dyadic_ratio, eq_div_iff (by exact_mod_cast (Nat.pow_pos Nat.two_pos).ne')]
    exact_mod_cast Iff.rfl
  have hwhole := truncated_eq m e
  rw [floor, hdatum]
  -- a negative number that is no integer goes one further than its magnitude is cut
  cases negative with
  | false =>
      refine ⟨false, truncated m e, 1, one_ne_zero, by simp, ?_⟩
      rw [Nat.cast_one, div_one]
      change ((⌊(m : ℚ) * 2 ^ e⌋ : ℤ) : ℚ) = (truncated m e : ℚ)
      exact_mod_cast hwhole.symm
  | true =>
      refine ⟨true, if (truncated m e : ℚ) = m * 2 ^ e then truncated m e else truncated m e + 1,
        1, one_ne_zero, ?_, ?_⟩
      · simp only [true_and, hexact, ite_not]
      · rw [Nat.cast_one, div_one]
        change ((⌊-((m : ℚ) * 2 ^ e)⌋ : ℤ) : ℚ) = -_
        rw [floor_neg_eq hwhole]
        norm_cast

/-- The integer part of a number is exact if it has at most 53 bits. -/
theorem floor_of_rational {x : Binary64} {q : ℚ} (h : x.rational? = some q)
    (hbits : ⌊q⌋.natAbs < 2 ^ 53) : x.floor.rational? = some (⌊q⌋ : ℚ) :=
  (floor_rounds h).integer hbits

/-- A sum of zero is negative only if both terms are. -/
theorem add_eq_zero {x y : Binary64} {p q : ℚ} (hx : x.rational? = some p)
    (hy : y.rational? = some q) (h : p + q = 0) :
    x + y = zero (x.isNegative && y.isNegative) := by
  obtain ⟨s, m, e, hxDatum, rfl⟩ := datum_of_rational hx
  obtain ⟨t, n, f, hyDatum, rfl⟩ := datum_of_rational hy
  -- at the common exponent the integers cancel
  rw [← aligned_eq (min_le_left e f), ← aligned_eq (min_le_right e f), ← add_mul,
    mul_eq_zero_iff_right (zpow_pos two_pos _).ne'] at h
  rw [(datum_of_sign hxDatum).1, (datum_of_sign hyDatum).1]
  change add x y = _
  rw [add, hxDatum, hyDatum]
  exact if_pos (by exact_mod_cast h)

/-! ## Fractions that keep their integer part -/

/-- A fraction that is no integer keeps its integer part if it moves by less than that of its
denominator. -/
theorem floor_near {q : ℚ} {n : Int} {den : Nat} (hden : 0 < den) (hrest : n % den ≠ 0)
    (hnear : |q - n / den| < 1 / den) : ⌊q⌋ = n / den := by
  obtain ⟨hlow, hhigh⟩ := abs_lt.1 hnear
  have hpos : (0 : ℚ) < den := Nat.cast_pos.2 hden
  have hdiv := Int.mul_ediv_add_emod n den
  have hmod := Int.emod_nonneg n (Int.natCast_ne_zero.2 hden.ne')
  have hless := Int.emod_lt_of_pos n (Int.natCast_pos.2 hden)
  -- either neighbour of the numerator stays between the two integers
  have hbelow : (n / den : ℤ) ≤ ((n : ℚ) - 1) / den := by
    rw [le_div_iff₀ hpos, mul_comm]
    exact_mod_cast (by omega : den * (n / den) ≤ n - 1)
  have habove : ((n : ℚ) + 1) / den ≤ (n / den : ℤ) + 1 := by
    rw [div_le_iff₀ hpos, mul_comm, mul_add, mul_one]
    exact_mod_cast (by omega : n + 1 ≤ den * (n / den) + den)
  rw [sub_div] at hbelow
  rw [add_div] at habove
  rw [Int.floor_eq_iff]
  constructor
  · linarith
  · linarith

end EngineLink.Binary64
