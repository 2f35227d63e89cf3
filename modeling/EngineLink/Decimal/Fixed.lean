import EngineLink.Binary64.Basic
import EngineLink.Text.Digits

/-!
# Decimal text with a fixed number of places

A finite number is written as its exact value rounded to so many places, a tie going to the
even digit, with a minus sign in front of every number whose sign bit is set.
-/

namespace EngineLink.Decimal

/-- The digits of `scaled / 10 ^ places` with exactly `places` digits after the point. -/
def placeDigits (places scaled : Nat) : List Char :=
  let whole := Text.digits (scaled / Nat.pow 10 places)
  let part := Text.digits (scaled % Nat.pow 10 places)
  if places = 0 then whole
  else whole ++ '.' :: (List.replicate (places - part.length) '0' ++ part)

/-- The text of a number with exactly `places` digits after the point. -/
def fixed (places : Nat) (x : Binary64) : List Char :=
  match x.datum with
  | .nan => "NaN".toList
  | .infinite negative => if negative then "-inf".toList else "inf".toList
  | .finite negative m e =>
    let scaled :=
      Binary64.roundDiv (m * Nat.pow 2 e.toNat * Nat.pow 10 places) (Nat.pow 2 (-e).toNat)
    let text := placeDigits places scaled
    if negative then '-' :: text else text

end EngineLink.Decimal
