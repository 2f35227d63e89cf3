/-!
# UTF-8 text and its lossy reading

Text leaves the library as UTF-8 bytes and arrives as bytes that may be anything. Encoding is
total; reading replaces each longest ill-formed part by the replacement character, so that
every byte sequence has a text and well-formed bytes have exactly their own.

Read `utf8` and `lossy` first.
-/

namespace EngineLink.Text

/-- The character that stands for a part that is no UTF-8. -/
def replacement : Char := '\uFFFD'

/-- The UTF-8 bytes of a list of characters. -/
def utf8Chars (cs : List Char) : List UInt8 :=
  cs.flatMap String.utf8EncodeChar

/-- The UTF-8 bytes of a text. -/
def utf8 (s : String) : List UInt8 :=
  utf8Chars s.toList

/-- What the first byte of a character says about the bytes that follow it. -/
inductive Lead
  /-- A character of one byte. -/
  | single
  /-- `more` bytes follow, the first of them between `low` and `high`; `bits` are the lead's own. -/
  | sequence (bits more : Nat) (low high : UInt8)
  /-- No character starts with this byte. -/
  | ill

/-- Classifies a first byte. The narrower ranges exclude overlong forms, surrogates and values
above the last character. -/
def Lead.of (b : UInt8) : Lead :=
  if b < 0x80 then .single
  else if b < 0xC2 then .ill
  else if b < 0xE0 then .sequence (b.toNat % 32) 1 0x80 0xBF
  else if b = 0xE0 then .sequence 0 2 0xA0 0xBF
  else if b = 0xED then .sequence 13 2 0x80 0x9F
  else if b < 0xF0 then .sequence (b.toNat % 16) 2 0x80 0xBF
  else if b = 0xF0 then .sequence 0 3 0x90 0xBF
  else if b < 0xF4 then .sequence (b.toNat % 8) 3 0x80 0xBF
  else if b = 0xF4 then .sequence 4 3 0x80 0x8F
  else .ill

/-- Continues a character whose bits so far are `bits` with `more` bytes, the next of them
between `low` and `high`. Stops in front of the first byte that does not fit. -/
def continueChar (bits : Nat) : Nat → UInt8 → UInt8 → List UInt8 → Char × List UInt8
  | 0, _, _, rest => (Char.ofNat bits, rest)
  | _ + 1, _, _, [] => (replacement, [])
  | more + 1, low, high, b :: rest =>
    if low ≤ b ∧ b ≤ high then continueChar (bits * 64 + b.toNat % 64) more 0x80 0xBF rest
    else (replacement, b :: rest)

/-- The first character of `b :: rest`, or the replacement of its longest ill-formed beginning,
and what follows it. -/
def firstChar (b : UInt8) (rest : List UInt8) : Char × List UInt8 :=
  match Lead.of b with
  | .single => (Char.ofNat b.toNat, rest)
  | .ill => (replacement, rest)
  | .sequence bits more low high => continueChar bits more low high rest

/-- Continuing a character leaves no more bytes than there were. -/
theorem continue_char_length_le (bits more : Nat) (low high : UInt8) (rest : List UInt8) :
    (continueChar bits more low high rest).2.length ≤ rest.length := by
  fun_induction continueChar bits more low high rest with
  | case1 => simp
  | case2 => simp
  | case3 _ _ _ _ _ _ _ ih => simp; omega
  | case4 => simp

/-- Reading a character leaves no more bytes than stood behind its first one. -/
theorem first_char_length_le (b : UInt8) (rest : List UInt8) :
    (firstChar b rest).2.length ≤ rest.length := by
  unfold firstChar
  split
  · simp
  · simp
  · exact continue_char_length_le _ _ _ _ _

/-- Reads bytes as UTF-8, each longest ill-formed part becoming one replacement character. -/
def lossyChars : List UInt8 → List Char
  | [] => []
  | b :: rest =>
    let first := firstChar b rest
    first.1 :: lossyChars first.2
termination_by bytes => bytes.length
decreasing_by
  have := first_char_length_le b rest
  simp only [List.length_cons]
  omega

/-- The text of arbitrary bytes. -/
def lossy (bytes : List UInt8) : String :=
  String.ofList (lossyChars bytes)

/-- The text of bytes that are well-formed UTF-8, and nothing for any others. -/
def ofUtf8? (bytes : List UInt8) : Option String :=
  let s := lossy bytes
  if utf8 s = bytes then some s else none

end EngineLink.Text
