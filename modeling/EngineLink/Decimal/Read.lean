import EngineLink.Binary64.Basic
import EngineLink.Text.Digits

/-!
# Reading decimal numbers

A decimal text is an optional sign, digits with an optional point among or beside them, and an
optional exponent, or the name of an infinity or of no number in any case. Its value is the
floating-point number nearest to the exact decimal, a tie going to the even significand.
-/

namespace EngineLink.Decimal

/-- An exact decimal, `coefficient * 10 ^ exponent`. -/
structure Exact where
  coefficient : Nat
  exponent : Int
  deriving DecidableEq

/-- A decimal that is not below this power of ten rounds to an infinity. -/
def overflowPlaces : Int := 310

/-- A decimal that is below this power of ten rounds to zero. -/
def underflowPlaces : Int := -330

/-- The floating-point number nearest to a decimal. -/
def Exact.toBinary64 (negative : Bool) (d : Exact) : Binary64 :=
  if d.coefficient = 0 then .zero negative
  else
    let places : Int := (Text.digits d.coefficient).length + d.exponent
    if overflowPlaces < places then .infinity negative
    else if places < underflowPlaces then .zero negative
    else
      .ofRatio negative (d.coefficient * Nat.pow 10 d.exponent.toNat)
        (Nat.pow 10 (-d.exponent).toNat)

/-- Why a text is no decimal. -/
inductive ReadError
  | empty
  | invalid
  deriving DecidableEq

/-- The sentence for a text that is no decimal. -/
def ReadError.message : ReadError → String
  | .empty => "cannot parse float from empty string"
  | .invalid => "invalid float literal"

/-- A digit of ASCII. -/
def isDigit (c : Char) : Bool :=
  (Text.digitValue? c).isSome

/-- The value of the digits of a text, of which there may be none. -/
def coefficientOf (digits : List Char) : Nat :=
  (Text.digitsValueFrom? 0 digits).getD 0

/-- The value of an exponent after its mark: an optional sign and at least one digit. -/
def readExponent? (cs : List Char) : Option Int :=
  match cs with
  | '-' :: rest => (Text.digitsValue? rest).map fun n => -(n : Int)
  | '+' :: rest => (Text.digitsValue? rest).map fun n => (n : Int)
  | _ => (Text.digitsValue? cs).map fun n => (n : Int)

/-- Reads digits with an optional point and exponent that make up the whole text. -/
def readExact? (cs : List Char) : Option Exact :=
  let whole := cs.takeWhile isDigit
  let afterWhole := cs.dropWhile isDigit
  let (fraction, rest) := match afterWhole with
    | '.' :: r => (r.takeWhile isDigit, r.dropWhile isDigit)
    | _ => ([], afterWhole)
  if whole = [] ∧ fraction = [] then none
  else
    let coefficient := coefficientOf (whole ++ fraction)
    let places : Int := fraction.length
    match rest with
    | [] => some ⟨coefficient, -places⟩
    | mark :: r =>
      if mark = 'e' ∨ mark = 'E' then
        (readExponent? r).map fun e => ⟨coefficient, e - places⟩
      else none

/-- A letter of ASCII in lower case, any other character as it is. -/
def lowerAscii (c : Char) : Char :=
  if 65 ≤ c.toNat ∧ c.toNat ≤ 90 then Char.ofNat (c.toNat + 32) else c

/-- The numbers that are written as words, in any case. -/
def readWord? (negative : Bool) (cs : List Char) : Option Binary64 :=
  let word := String.ofList (cs.map lowerAscii)
  if word = "inf" ∨ word = "infinity" then some (.infinity negative)
  else if word = "nan" then some .nan
  else none

/-- The floating-point number that a text denotes. -/
def read (cs : List Char) : Except ReadError Binary64 :=
  if cs = [] then .error .empty
  else
    let (negative, body) := match cs with
      | '-' :: rest => (true, rest)
      | '+' :: rest => (false, rest)
      | _ => (false, cs)
    match readExact? body with
    | some d => .ok (d.toBinary64 negative)
    | none =>
      match readWord? negative body with
      | some x => .ok x
      | none => .error .invalid

end EngineLink.Decimal
