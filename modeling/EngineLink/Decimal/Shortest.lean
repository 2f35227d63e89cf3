import EngineLink.Binary64.Basic
import EngineLink.Text.Digits

/-!
# The shortest decimal of a floating-point number

A finite number has an interval of reals that round to it. Its shortest decimal has the fewest
digits among the decimals in that interval, and of those with the fewest it is the nearest to
the number itself.

Read `shortest` first; everything is exact arithmetic of natural numbers.
-/

namespace EngineLink.Decimal

/-- The reals that round to a number, in units of a common denominator: the number itself and
the two ends of its interval. -/
structure Interval where
  low : Nat
  value : Nat
  high : Nat
  /-- The units that make one. -/
  unit : Nat
  /-- The ends round to the number as well. -/
  closed : Bool

/-- The interval of `m * 2 ^ e`, with `m` not zero. Below a power of two the neighbours are
closer, except at the least exponent. -/
def Interval.ofDyadic (m : Nat) (e : Int) : Interval :=
  let up := Nat.pow 2 e.toNat
  let unit := 4 * Nat.pow 2 (-e).toNat
  let below := if m = Binary64.leastNormal ∧ e ≠ Binary64.minExponent then 1 else 2
  { low := (4 * m - below) * up
    value := 4 * m * up
    high := (4 * m + 2) * up
    unit := unit
    closed := m % 2 = 0 }

/-- The decimal `n * 10 ^ k` lies in the interval. -/
def Interval.contains (i : Interval) (n : Nat) (k : Int) : Bool :=
  let point := n * Nat.pow 10 k.toNat * i.unit
  let scale := Nat.pow 10 (-k).toNat
  if i.closed then i.low * scale ≤ point && point ≤ i.high * scale
  else i.low * scale < point && point < i.high * scale

/-- Of the two neighbours of the value among the multiples of `10 ^ k`, the nearest one that
lies in the interval; of two equally near ones the even one. -/
def Interval.nearest? (i : Interval) (k : Int) : Option Nat :=
  let num := i.value * Nat.pow 10 (-k).toNat
  let den := i.unit * Nat.pow 10 k.toNat
  let under := num / den
  let rest := num % den
  let underFits := 0 < under && i.contains under k
  let overFits := i.contains (under + 1) k
  if underFits && overFits then
    if 2 * rest < den ∨ (2 * rest = den ∧ under % 2 = 0) then some under else some (under + 1)
  else if underFits then some under
  else if overFits then some (under + 1)
  else none

/-- The number of digits of the integer part of the value, or the negated number of zeros
after the point in front of its first digit. -/
def Interval.places (i : Interval) : Int :=
  if i.unit ≤ i.value then (Text.digits (i.value / i.unit)).length
  else -(((Text.digits (i.unit / i.value)).length : Int) - 1)

/-- Tries grids of `10 ^ k`, from coarse to fine, `tries` of them. -/
def Interval.firstHit (i : Interval) : Nat → Int → Option (Nat × Int)
  | 0, _ => none
  | tries + 1, k =>
    match i.nearest? k with
    | some n => some (n, k)
    | none => i.firstHit tries (k - 1)

/-- Moves factors of ten from a coefficient into its exponent. -/
def normalise : Nat → Nat → Int → Nat × Int
  | 0, n, k => (n, k)
  | steps + 1, n, k => if n % 10 = 0 ∧ n ≠ 0 then normalise steps (n / 10) (k + 1) else (n, k)

/-- The shortest decimal `n * 10 ^ k` that rounds to `m * 2 ^ e`, without a final zero in
`n`. Nineteen grids reach from above the number to seventeen digits of it. -/
def shortest (m : Nat) (e : Int) : Nat × Int :=
  if m = 0 then (0, 0)
  else
    let i := Interval.ofDyadic m e
    match i.firstHit 20 (i.places + 1) with
    | some (n, k) => normalise 20 n k
    | none => (m, e)

end EngineLink.Decimal
