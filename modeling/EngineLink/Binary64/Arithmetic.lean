import EngineLink.Binary64.Basic

/-!
# Arithmetic of floating-point numbers

Sum, product, quotient and floor, each the exact result rounded once, with the usual rules for
zeros, infinities and the absence of a number.
-/

namespace EngineLink.Binary64

/-- A signed multiple of a power of two as an integer at the exponent `e`, which is not above
its own. -/
def alignedTo (e : Int) (negative : Bool) (significand : Nat) (exponent : Int) : Int :=
  let n : Int := significand * Nat.pow 2 (exponent - e).toNat
  if negative then -n else n

/-- The number with the opposite sign. -/
def neg (x : Binary64) : Binary64 :=
  ofMagnitude (!x.isNegative) x.magnitudeBits

/-- The rounded sum. An exact zero is positive unless both terms are negative zeros. -/
def add (x y : Binary64) : Binary64 :=
  match x.datum, y.datum with
  | .nan, _ | _, .nan => nan
  | .infinite s, .infinite t => if s = t then infinity s else nan
  | .infinite s, _ => infinity s
  | _, .infinite t => infinity t
  | .finite s m e, .finite t n f =>
    let least := min e f
    let total := alignedTo least s m e + alignedTo least t n f
    if total = 0 then zero (s && t)
    else ofDyadic (total < 0) total.natAbs least

/-- The rounded difference. -/
def sub (x y : Binary64) : Binary64 :=
  add x y.neg

/-- The rounded product. -/
def mul (x y : Binary64) : Binary64 :=
  match x.datum, y.datum with
  | .nan, _ | _, .nan => nan
  | .infinite s, .infinite t => infinity (s != t)
  | .infinite s, .finite t n _ => if n = 0 then nan else infinity (s != t)
  | .finite s m _, .infinite t => if m = 0 then nan else infinity (s != t)
  | .finite s m e, .finite t n f => ofDyadic (s != t) (m * n) (e + f)

/-- The rounded quotient. -/
def div (x y : Binary64) : Binary64 :=
  match x.datum, y.datum with
  | .nan, _ | _, .nan => nan
  | .infinite _, .infinite _ => nan
  | .infinite s, .finite t _ _ => infinity (s != t)
  | .finite s _ _, .infinite t => zero (s != t)
  | .finite s m e, .finite t n f =>
    if n = 0 then (if m = 0 then nan else infinity (s != t))
    else ofRatio (s != t) (m * Nat.pow 2 (e - f).toNat) (n * Nat.pow 2 (f - e).toNat)

/-- The integer part of `significand * 2 ^ exponent` toward zero. -/
def truncated (significand : Nat) (exponent : Int) : Nat :=
  significand * Nat.pow 2 exponent.toNat / Nat.pow 2 (-exponent).toNat

/-- The largest integer that is not above the number. -/
def floor (x : Binary64) : Binary64 :=
  match x.datum with
  | .finite s m e =>
    let whole := truncated m e
    let exact := whole * Nat.pow 2 (-e).toNat = m * Nat.pow 2 e.toNat
    ofRatio s (if s ∧ ¬ exact then whole + 1 else whole) 1
  | _ => x

/-- The integer part toward zero, kept between `bottom` and `top`; no number gives zero. -/
def truncate (bottom top : Int) (x : Binary64) : Int :=
  match x.datum with
  | .nan => 0
  | .infinite s => if s then bottom else top
  | .finite s m e =>
    let whole : Int := truncated m e
    max bottom (min top (if s then -whole else whole))

instance : Add Binary64 := ⟨add⟩
instance : Sub Binary64 := ⟨sub⟩
instance : Mul Binary64 := ⟨mul⟩
instance : Div Binary64 := ⟨div⟩
instance : Neg Binary64 := ⟨neg⟩

end EngineLink.Binary64
