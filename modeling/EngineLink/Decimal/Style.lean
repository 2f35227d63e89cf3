import EngineLink.Decimal.Shortest

/-!
# Positional and scientific notation

A shortest decimal is written positionally while its scientific exponent lies in a range, and
with a mark and a signed exponent outside of it. A whole number keeps one zero after the point.
-/

namespace EngineLink.Decimal

/-- The scientific exponents that are written positionally, and how the others are written. -/
structure Style where
  least : Int
  greatest : Int
  /-- An exponent that is not negative has a plus sign. -/
  plus : Bool

/-- Digits with the point behind the first `places` of them, which may lie outside. -/
def positional (ds : List Char) (places : Int) : List Char :=
  if places ≤ 0 then '0' :: '.' :: (List.replicate (-places).toNat '0' ++ ds)
  else
    let padded := ds ++ List.replicate (places.toNat - ds.length) '0'
    let part := padded.drop places.toNat
    padded.take places.toNat ++ '.' :: (if part = [] then ['0'] else part)

/-- Digits with the point behind the first one, and an exponent with its sign. -/
def scientific (plus : Bool) (ds : List Char) (exponent : Int) : List Char :=
  let part := match ds.drop 1 with
    | [] => []
    | rest => '.' :: rest
  let sign := if exponent < 0 then ['-'] else if plus then ['+'] else []
  ds.take 1 ++ part ++ 'e' :: (sign ++ Text.digits exponent.natAbs)

/-- The text of `n * 10 ^ k`. -/
def Style.chars (format : Style) (n : Nat) (k : Int) : List Char :=
  let ds := Text.digits n
  let places : Int := ds.length + k
  if n = 0 ∨ (format.least ≤ places - 1 ∧ places - 1 ≤ format.greatest) then positional ds places
  else scientific format.plus ds (places - 1)

/-- The shortest text of a finite number, and nothing for any other. -/
def Style.chars? (format : Style) (x : Binary64) : Option (List Char) :=
  match x.datum with
  | .finite negative m e =>
    let d := shortest m e
    let text := format.chars d.1 d.2
    some (if negative then '-' :: text else text)
  | _ => none

/-- How a number is shown in a log: positionally from `0.00001` up to sixteen digits before the
point. -/
def logStyle : Style := ⟨-5, 15, false⟩

/-- A number as it is shown in a log. -/
def logText (x : Binary64) : String :=
  match logStyle.chars? x with
  | some cs => String.ofList cs
  | none => if x.isNaN then "NaN" else if x.isNegative then "-inf" else "inf"

end EngineLink.Decimal
