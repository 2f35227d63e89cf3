/-!
# Decimal digits

Whole numbers as text: the decimal digits of a number without leading zeros, the value of a
string of digits, and the reading of bounded numbers with an optional sign.
-/

namespace EngineLink.Text

/-- The digit of a number below ten. -/
def digitChar (d : Nat) : Char :=
  Char.ofNat (48 + d % 10)

/-- The value of an ASCII digit. -/
def digitValue? (c : Char) : Option Nat :=
  if 48 ≤ c.toNat ∧ c.toNat ≤ 57 then some (c.toNat - 48) else none

/-- The decimal digits of a number, most significant first and without leading zeros. -/
def digits (n : Nat) : List Char :=
  if n < 10 then [digitChar n] else digits (n / 10) ++ [digitChar n]
termination_by n
decreasing_by omega

/-- The decimal text of a whole number. -/
def ofNat (n : Nat) : String :=
  String.ofList (digits n)

/-- The characters of an integer, with a minus sign in front of a negative one. -/
def intChars (n : Int) : List Char :=
  if n < 0 then '-' :: digits n.natAbs else digits n.natAbs

/-- The decimal text of an integer. -/
def ofInt (n : Int) : String :=
  String.ofList (intChars n)

/-- The value of digits that continue `acc`, if there is no other character. -/
def digitsValueFrom? (acc : Nat) : List Char → Option Nat
  | [] => some acc
  | c :: rest =>
    match digitValue? c with
    | some d => digitsValueFrom? (10 * acc + d) rest
    | none => none

/-- The value of a non-empty string of ASCII digits. -/
def digitsValue? (cs : List Char) : Option Nat :=
  if cs = [] then none else digitsValueFrom? 0 cs

/-- Reads a number with an optional plus sign that is at most `top`. -/
def readNat? (top : Nat) (cs : List Char) : Option Nat :=
  let body := match cs with
    | '+' :: rest => rest
    | _ => cs
  (digitsValue? body).filter (· ≤ top)

/-- Reads an integer with an optional sign that lies between `bottom` and `top`. -/
def readInt? (bottom top : Int) (cs : List Char) : Option Int :=
  let value : Option Int := match cs with
    | '-' :: rest => (digitsValue? rest).map fun n => -(n : Int)
    | '+' :: rest => (digitsValue? rest).map fun n => (n : Int)
    | _ => (digitsValue? cs).map fun n => (n : Int)
  value.filter fun n => bottom ≤ n ∧ n ≤ top

/-- The largest number of 64 bits. -/
def maxWord : Nat := 0xFFFFFFFFFFFFFFFF

/-- Reads a signed number of 64 bits. -/
def readInt64? (cs : List Char) : Option Int :=
  readInt? (-0x8000000000000000) 0x7FFFFFFFFFFFFFFF cs

/-- The two lower-case hexadecimal digits of a byte. -/
def hexByte (b : UInt8) : List Char :=
  let digit (n : Nat) : Char := if n < 10 then Char.ofNat (48 + n) else Char.ofNat (87 + n)
  [digit (b.toNat / 16), digit (b.toNat % 16)]

/-- Bytes as lower-case hexadecimal digits. -/
def hex (bytes : List UInt8) : String :=
  String.ofList (bytes.flatMap hexByte)

/-- The value of a hexadecimal digit of either case. -/
def hexValue? (c : Char) : Option Nat :=
  let n := c.toNat
  if 48 ≤ n ∧ n ≤ 57 then some (n - 48)
  else if 65 ≤ n ∧ n ≤ 70 then some (n - 55)
  else if 97 ≤ n ∧ n ≤ 102 then some (n - 87)
  else none

end EngineLink.Text
