/-!
# Floating-point numbers of 64 bits

A number is its 64 bits; what they denote is a signed multiple of a power of two, an infinity
or no number. Rounding takes an exact ratio to the nearest number, a tie to the one with an
even significand, so that every operation is exact arithmetic followed by one rounding.

Read `datum` and `ofRatio` first.
-/

namespace EngineLink

/-- A floating-point number of 64 bits. -/
structure Binary64 where
  bits : UInt64
  deriving DecidableEq

namespace Binary64

/-- What the bits of a number denote. -/
inductive Datum
  /-- The number `significand * 2 ^ exponent`, negated if `negative`. -/
  | finite (negative : Bool) (significand : Nat) (exponent : Int)
  | infinite (negative : Bool)
  | nan
  deriving DecidableEq

/-- The weight of the least bit of the numbers nearest to zero. -/
def minExponent : Int := -1074

/-- The weight of the sign bit. -/
def signWeight : Nat := 0x8000000000000000

/-- The least significand of 53 bits. -/
def leastNormal : Nat := 0x10000000000000

/-- The bits that hold no sign. -/
def magnitudeBits (x : Binary64) : Nat :=
  x.bits.toNat % signWeight

/-- The sign bit is set. -/
def isNegative (x : Binary64) : Bool :=
  signWeight ≤ x.bits.toNat

/-- The bits of the infinities, without the sign. -/
def infinityBits : Nat := 0x7FF * leastNormal

/-- What a number denotes. -/
def datum (x : Binary64) : Datum :=
  let magnitude := x.magnitudeBits
  if magnitude = infinityBits then .infinite x.isNegative
  else if infinityBits < magnitude then .nan
  else if magnitude < leastNormal then .finite x.isNegative magnitude minExponent
  else
    .finite x.isNegative (leastNormal + magnitude % leastNormal)
      (minExponent - 1 + (magnitude / leastNormal : Nat))

/-- The number with these magnitude bits and this sign. -/
def ofMagnitude (negative : Bool) (magnitude : Nat) : Binary64 :=
  ⟨UInt64.ofNat (if negative then signWeight + magnitude else magnitude)⟩

/-- The infinity of a sign. -/
def infinity (negative : Bool) : Binary64 :=
  ofMagnitude negative infinityBits

/-- The bits that stand for no number. -/
def nan : Binary64 := ⟨0x7FF8000000000000⟩

/-- The zero of a sign. -/
def zero (negative : Bool) : Binary64 :=
  ofMagnitude negative 0

/-- The bits denote no number. -/
def isNaN (x : Binary64) : Bool :=
  infinityBits < x.magnitudeBits

/-- Neither infinite nor without a value. -/
def isFinite (x : Binary64) : Bool :=
  x.magnitudeBits < infinityBits

/-- The nearest integer to `num / den`, a tie going to the even one. -/
def roundDiv (num den : Nat) : Nat :=
  let q := num / den
  let r := num % den
  if den < 2 * r ∨ (2 * r = den ∧ q % 2 = 1) then q + 1 else q

/-- The exponent at which `num / den` has a significand of 53 bits, or the least exponent. -/
def ratioExponent (num den : Nat) : Int :=
  let e : Int := (num.log2 : Int) - den.log2 - 52
  let tooLarge := num * Nat.pow 2 (-e).toNat < den * leastNormal * Nat.pow 2 e.toNat
  max (if tooLarge then e - 1 else e) minExponent

/-- The number nearest to `num / den`, a tie going to the even significand. The denominator is
not zero. -/
def ofRatio (negative : Bool) (num den : Nat) : Binary64 :=
  if num = 0 then zero negative
  else
    let e := ratioExponent num den
    let significand := roundDiv (num * Nat.pow 2 (-e).toNat) (den * Nat.pow 2 e.toNat)
    ofMagnitude negative (min ((e - minExponent).toNat * leastNormal + significand) infinityBits)

/-- The number nearest to `n * 2 ^ e`. -/
def ofDyadic (negative : Bool) (n : Nat) (e : Int) : Binary64 :=
  ofRatio negative (n * Nat.pow 2 e.toNat) (Nat.pow 2 (-e).toNat)

/-- The number nearest to an integer. -/
def ofInt (n : Int) : Binary64 :=
  ofRatio (n < 0) n.natAbs 1

end Binary64

end EngineLink
