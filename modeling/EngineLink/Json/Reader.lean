import EngineLink.Binary64.Arithmetic
import EngineLink.Decimal.Read
import EngineLink.Json.Basic
import EngineLink.Text.Utf8

/-!
# Reading JSON

One value makes up the whole text, with white space around its tokens. Arrays and objects nest
at most 127 deep. The first fault ends the reading; it is named with the line and the column,
in bytes, up to which the text was looked at.

Read `value` and `read` first. A reader gets the bytes that are left and gives back fewer; a
fault keeps how many were left when it was met, which fixes its place in the text.
-/

namespace EngineLink.Json

/-- What is wrong with a text. -/
inductive Fault
  | eofInValue | eofInArray | eofInObject | eofInString
  | expectedColon | expectedArrayCommaOrEnd | expectedObjectCommaOrEnd
  | expectedIdent | expectedValue
  | invalidEscape | invalidNumber | numberOutOfRange
  | controlCharacter | keyMustBeString
  | loneSurrogate | endOfHexEscape
  | trailingComma | trailingCharacters | nestedTooDeep
  deriving DecidableEq

/-- The sentence for a fault. -/
def Fault.message : Fault → String
  | eofInValue => "EOF while parsing a value"
  | eofInArray => "EOF while parsing a list"
  | eofInObject => "EOF while parsing an object"
  | eofInString => "EOF while parsing a string"
  | expectedColon => "expected `:`"
  | expectedArrayCommaOrEnd => "expected `,` or `]`"
  | expectedObjectCommaOrEnd => "expected `,` or `\x7d`"
  | expectedIdent => "expected ident"
  | expectedValue => "expected value"
  | invalidEscape => "invalid escape"
  | invalidNumber => "invalid number"
  | numberOutOfRange => "number out of range"
  | controlCharacter => "control character (\\u0000-\\u001F) found while parsing a string"
  | keyMustBeString => "key must be a string"
  | loneSurrogate => "lone leading surrogate in hex escape"
  | endOfHexEscape => "unexpected end of hex escape"
  | trailingComma => "trailing comma"
  | trailingCharacters => "trailing characters"
  | nestedTooDeep => "recursion limit exceeded"

/-- A fault and the number of bytes that were not looked at when it was met. -/
structure Failure where
  fault : Fault
  left : Nat
  deriving DecidableEq

/-- A fault behind the bytes read so far, of which `rest` are left. -/
def failAt {α : Type} (fault : Fault) (rest : List UInt8) : Except Failure α :=
  .error ⟨fault, rest.length⟩

/-- A fault at the next byte of `rest`, which counts as looked at. -/
def failPast {α : Type} (fault : Fault) (rest : List UInt8) : Except Failure α :=
  .error ⟨fault, rest.length - 1⟩

/-- White space between tokens. -/
def isSpace (b : UInt8) : Bool :=
  b = 32 || b = 10 || b = 9 || b = 13

/-- The bytes from the next token on. -/
def skipSpace (s : List UInt8) : List UInt8 :=
  s.dropWhile isSpace

/-- Skipping white space leaves no more bytes than there were. -/
theorem skip_space_length_le (s : List UInt8) : (skipSpace s).length ≤ s.length :=
  (List.dropWhile_suffix _).length_le

/-- What a reader of `s` found and the bytes behind it. -/
structure Found (α : Type) (s : List UInt8) where
  value : α
  rest : List UInt8
  shorter : rest.length < s.length

/-- The same finding for a reader that started earlier. -/
def Found.widen {α : Type} {s : List UInt8} (f : Found α s) (t : List UInt8)
    (h : s.length ≤ t.length) : Found α t :=
  ⟨f.value, f.rest, Nat.lt_of_lt_of_le f.shorter h⟩

/-- What a finding stands for, for a reader that started one byte earlier. -/
def Found.behind {α β : Type} {s : List UInt8} (f : Found α s) (b : UInt8) (g : α → β) :
    Found β (b :: s) :=
  ⟨g f.value, f.rest, Nat.lt_succ_of_lt f.shorter⟩

/-! ## Strings -/

/-- The character of a simple escape. -/
def simpleEscape? (b : UInt8) : Option Char :=
  if b = 34 then some '"'
  else if b = 92 then some '\\'
  else if b = 47 then some '/'
  else if b = 98 then some (Char.ofNat 8)
  else if b = 102 then some (Char.ofNat 12)
  else if b = 110 then some '\n'
  else if b = 114 then some '\r'
  else if b = 116 then some '\t'
  else none

/-- The value of four hexadecimal digits. -/
def fourHex? (a b c d : UInt8) : Option Nat := do
  let digit (x : UInt8) : Option Nat := Text.hexValue? (Char.ofNat x.toNat)
  let a ← digit a
  let b ← digit b
  let c ← digit c
  let d ← digit d
  return ((a * 16 + b) * 16 + c) * 16 + d

/-- Reads the four digits of a code. -/
def hexCode : (s : List UInt8) → Except Failure (Found Nat s)
  | a :: b :: c :: d :: rest =>
    match fourHex? a b c d with
    | some n => .ok ⟨n, rest, by simp only [List.length_cons]; omega⟩
    | none => failAt .invalidEscape rest
  | _ => failAt .eofInString []

/-- Reads the second half of a surrogate pair, behind the digits of the first half `high`. -/
def lowSurrogate (high : Nat) : (s : List UInt8) → Except Failure (Found Char s)
  | [] => failAt .eofInString []
  | b :: rest =>
    if b ≠ 92 then failAt .endOfHexEscape rest
    else match rest with
      | [] => failAt .eofInString []
      | c :: rest' =>
        if c ≠ 117 then failAt .endOfHexEscape rest'
        else match hexCode rest' with
          | .error e => .error e
          | .ok low =>
            if 0xDC00 ≤ low.value ∧ low.value ≤ 0xDFFF then
              let code := (high - 0xD800) * 1024 + (low.value - 0xDC00) + 0x10000
              .ok ((low.behind c fun _ => Char.ofNat code).behind b id)
            else failAt .loneSurrogate low.rest

/-- Reads the code of a character, or the codes of a surrogate pair. -/
def codeEscape (s : List UInt8) : Except Failure (Found Char s) :=
  match hexCode s with
  | .error e => .error e
  | .ok code =>
    if 0xDC00 ≤ code.value ∧ code.value ≤ 0xDFFF then failAt .loneSurrogate code.rest
    else if code.value < 0xD800 ∨ 0xDBFF < code.value then
      .ok ⟨Char.ofNat code.value, code.rest, code.shorter⟩
    else match lowSurrogate code.value code.rest with
      | .error e => .error e
      | .ok c => .ok (c.widen s (Nat.le_of_lt code.shorter))

/-- Reads an escape behind its backslash. -/
def escape : (s : List UInt8) → Except Failure (Found Char s)
  | [] => failAt .eofInString []
  | b :: rest =>
    if b = 117 then
      match codeEscape rest with
      | .error e => .error e
      | .ok c => .ok (c.behind b id)
    else match simpleEscape? b with
      | some c => .ok ⟨c, rest, by simp⟩
      | none => failAt .invalidEscape rest

/-- Reads the bytes of a string behind its opening quote, up to and with the closing one. -/
def stringBytes (s : List UInt8) : Except Failure (Found (List UInt8) s) :=
  match s with
  | [] => failAt .eofInString []
  | b :: rest =>
    if b = 34 then .ok ⟨[], rest, by simp⟩
    else if b = 92 then
      match escape rest with
      | .error e => .error e
      | .ok c =>
        have := c.shorter
        match stringBytes c.rest with
        | .error e => .error e
        | .ok later =>
          .ok ⟨Text.utf8Chars [c.value] ++ later.value, later.rest, by
            have := later.shorter
            simp only [List.length_cons]
            omega⟩
    else if b < 32 then failAt .controlCharacter rest
    else
      match stringBytes rest with
      | .error e => .error e
      | .ok later =>
        .ok ⟨b :: later.value, later.rest, by
          have := later.shorter
          simp only [List.length_cons]
          omega⟩
termination_by s.length
decreasing_by all_goals simp only [List.length_cons]; omega

/-- Reads a string behind its opening quote. -/
def readString (s : List UInt8) : Except Failure (Found String s) :=
  match stringBytes s with
  | .error e => .error e
  | .ok bytes => .ok ⟨Text.lossy bytes.value, bytes.rest, bytes.shorter⟩

/-! ## Numbers -/

/-- The value of a byte that is a digit. -/
def digit? (b : UInt8) : Option Nat :=
  if 48 ≤ b ∧ b ≤ 57 then some (b.toNat - 48) else none

/-- The bytes behind a run of digits. -/
def skipDigits (s : List UInt8) : List UInt8 :=
  s.dropWhile fun b => (digit? b).isSome

/-- Skipping digits leaves no more bytes than there were. -/
theorem skip_digits_length_le (s : List UInt8) : (skipDigits s).length ≤ s.length :=
  (List.dropWhile_suffix _).length_le

/-- The largest significand that is kept exactly. -/
def maxSignificand : Nat := 0xFFFFFFFFFFFFFFFF

/-- Continues a significand with the digits of `s` while it stays small enough. Gives it, the
number of digits taken and what follows them. -/
def takeDigits (significand : Nat) : List UInt8 → Nat × Nat × List UInt8
  | [] => (significand, 0, [])
  | b :: rest =>
    match digit? b with
    | none => (significand, 0, b :: rest)
    | some d =>
      if maxSignificand < significand * 10 + d then (significand, 0, b :: rest)
      else
        let later := takeDigits (significand * 10 + d) rest
        (later.1, later.2.1 + 1, later.2.2)

/-- Taking digits leaves no more bytes than there were. -/
theorem take_digits_length_le (significand : Nat) (s : List UInt8) :
    (takeDigits significand s).2.2.length ≤ s.length := by
  fun_induction takeDigits significand s with
  | case1 => simp
  | case2 => simp
  | case3 => simp
  | case4 _ _ _ _ _ _ _ ih => exact Nat.le_succ_of_le ih

/-- The largest exponent that is written out. -/
def maxExponent : Nat := 0x7FFFFFFF

/-- The largest power of ten of a floating-point number. -/
def maxPower : Nat := 308

/-- A power of ten as a floating-point number. -/
def powerOfTen (n : Nat) : Binary64 :=
  Decimal.Exact.toBinary64 false ⟨1, n⟩

/-- Divides by `10 ^ places` in steps of the largest power. -/
def scaleDown (x : Binary64) (places : Nat) : Binary64 :=
  if _h : places ≤ maxPower then x / powerOfTen places
  else if x.magnitudeBits = 0 then x
  else scaleDown (x / powerOfTen maxPower) (places - maxPower)
termination_by places
decreasing_by simp only [maxPower] at *; omega

/-- The floating-point number of a significand and a power of ten, unless it is too large. -/
def scaled? (significand : Nat) (exponent : Int) : Option Binary64 :=
  let x := Binary64.ofInt significand
  if exponent < 0 then some (scaleDown x exponent.natAbs)
  else if maxPower < exponent then if significand = 0 then some x else none
  else
    let y := x * powerOfTen exponent.toNat
    if y.isFinite then some y else none

/-- A number in front of `rest`, with its sign. -/
def floatOf (positive : Bool) (significand : Nat) (exponent : Int) (rest : List UInt8) :
    Except Failure Number :=
  match scaled? significand exponent with
  | some x => .ok (.float (if positive then x else -x))
  | none => failAt .numberOutOfRange rest

/-- The digits of an exponent behind its first one: their value and what follows, or, once the
value is too large, what follows the digit that made it so. -/
def exponentDigits (value : Nat) : List UInt8 → Except (List UInt8) (Nat × List UInt8)
  | [] => .ok (value, [])
  | b :: rest =>
    match digit? b with
    | none => .ok (value, b :: rest)
    | some d =>
      if maxExponent < value * 10 + d then .error rest else exponentDigits (value * 10 + d) rest

/-- The digits of an exponent leave no more bytes than there were, in range or beyond. -/
theorem exponent_digits_length_le (value : Nat) (s : List UInt8) :
    (∀ n r, exponentDigits value s = .ok (n, r) → r.length ≤ s.length) ∧
      ∀ r, exponentDigits value s = .error r → r.length ≤ s.length := by
  fun_induction exponentDigits value s with
  | case1 => simp
  | case2 => simp
  | case3 => simp
  | case4 _ _ _ _ _ _ ih =>
    constructor
    · intro n r h
      have := ih.1 n r h
      simp only [List.length_cons]
      omega
    · intro r h
      have := ih.2 r h
      simp only [List.length_cons]
      omega

/-- Reads an exponent behind its mark and finishes the number. -/
def exponentPart (positive : Bool) (significand : Nat) (start : Int) (s : List UInt8) :
    Except Failure (Found Number s) :=
  let sign : Bool × List UInt8 := match s with
    | 43 :: rest => (true, rest)
    | 45 :: rest => (false, rest)
    | _ => (true, s)
  have sign_le : sign.2.length ≤ s.length := by
    simp only [sign]
    split <;> simp
  match hs : sign.2 with
  | [] => failAt .eofInValue []
  | b :: rest =>
    match digit? b with
    | none => failAt .invalidNumber rest
    | some d =>
      match hd : exponentDigits d rest with
      | .ok (n, after) =>
        match floatOf positive significand (if sign.1 then start + n else start - n) after with
        | .error e => .error e
        | .ok x => .ok ⟨x, after, by
            have := (exponent_digits_length_le d rest).1 n after hd
            rw [hs] at sign_le
            simp only [List.length_cons] at sign_le
            omega⟩
      | .error after =>
        if significand ≠ 0 ∧ sign.1 then failAt .numberOutOfRange after
        else .ok ⟨.float (.zero (!positive)), skipDigits after, by
            have := (exponent_digits_length_le d rest).2 after hd
            have := skip_digits_length_le after
            rw [hs] at sign_le
            simp only [List.length_cons] at sign_le
            omega⟩

/-- The mark of an exponent. -/
def isExponentMark (b : UInt8) : Bool :=
  b = 101 || b = 69

/-- Finishes a number whose digits are read: an exponent may follow. -/
def afterDigits (positive : Bool) (significand : Nat) (exponent : Int) (s : List UInt8)
    (t : List UInt8) (h : t.length < s.length) : Except Failure (Found Number s) :=
  match t with
  | b :: rest =>
    if isExponentMark b then
      match exponentPart positive significand exponent rest with
      | .error e => .error e
      | .ok x => .ok (x.widen s (by simp only [List.length_cons] at h; omega))
    else match floatOf positive significand exponent (b :: rest) with
      | .error e => .error e
      | .ok x => .ok ⟨x, b :: rest, h⟩
  | [] => match floatOf positive significand exponent [] with
    | .error e => .error e
    | .ok x => .ok ⟨x, [], h⟩

/-- Reads the digits behind a point and finishes the number. Digits that no longer fit into the
significand are skipped. -/
def fractionPart (positive : Bool) (significand : Nat) (start : Int) (s : List UInt8)
    (t : List UInt8) (h : t.length < s.length) : Except Failure (Found Number s) :=
  let taken := takeDigits significand t
  have le : taken.2.2.length ≤ t.length := take_digits_length_le significand t
  let exponent : Int := start - taken.2.1
  match ht : taken.2.2 with
  | [] =>
    if taken.2.1 = 0 then failPast .eofInValue []
    else afterDigits positive taken.1 exponent s [] (by simp only [List.length_nil]; omega)
  | b :: rest =>
    if (digit? b).isSome then
      afterDigits positive taken.1 exponent s (skipDigits (b :: rest)) (by
        have := skip_digits_length_le (b :: rest)
        rw [ht] at le
        omega)
    else if taken.2.1 = 0 then failPast .invalidNumber (b :: rest)
    else afterDigits positive taken.1 exponent s (b :: rest) (by rw [ht] at le; omega)

/-- A whole number: an integer where 64 bits hold it, except that a negative zero is a
floating-point number. -/
def wholeNumber (positive : Bool) (significand : Nat) : Number :=
  if positive then .integer significand
  else if significand = 0 ∨ 0x8000000000000000 < significand then
    .float (-Binary64.ofInt significand)
  else .integer (-significand)

/-- Finishes a number behind the digits before its point. -/
def afterWhole (positive : Bool) (significand : Nat) (s : List UInt8) (t : List UInt8)
    (h : t.length < s.length) : Except Failure (Found Number s) :=
  match t with
  | b :: rest =>
    if b = 46 then
      fractionPart positive significand 0 s rest (by simp only [List.length_cons] at h; omega)
    else if isExponentMark b then afterDigits positive significand 0 s (b :: rest) h
    else .ok ⟨wholeNumber positive significand, b :: rest, h⟩
  | [] => .ok ⟨wholeNumber positive significand, [], h⟩

/-- Finishes a number whose whole digits do not all fit into the significand: the others count
as powers of ten. -/
def longWhole (positive : Bool) (significand : Nat) (s : List UInt8) (t : List UInt8)
    (h : t.length < s.length) : Except Failure (Found Number s) :=
  let after := skipDigits t
  have le : after.length ≤ t.length := skip_digits_length_le t
  let exponent : Int := (t.length : Int) - after.length
  match after with
  | b :: rest =>
    if b = 46 then
      fractionPart positive significand exponent s rest (by
        simp only [List.length_cons] at le
        omega)
    else afterDigits positive significand exponent s (b :: rest) (by omega)
  | [] => afterDigits positive significand exponent s [] (by omega)

/-- Finishes a number whose first digit is the zero `b`: no second digit may follow it. -/
def afterZero (positive : Bool) (b : UInt8) (rest : List UInt8) :
    Except Failure (Found Number (b :: rest)) :=
  match rest with
  | c :: more =>
    if (digit? c).isSome then failPast .invalidNumber (c :: more)
    else afterWhole positive 0 (b :: c :: more) (c :: more) (by simp)
  | [] => afterWhole positive 0 [b] [] (by simp)

/-- Finishes a number whose first digit is `b`, which is worth `d`, where that is no zero. -/
def afterDigit (positive : Bool) (d : Nat) (b : UInt8) (rest : List UInt8) :
    Except Failure (Found Number (b :: rest)) :=
  let taken := takeDigits d rest
  have le : taken.2.2.length ≤ rest.length := take_digits_length_le d rest
  match ht : taken.2.2 with
  | [] => afterWhole positive taken.1 (b :: rest) [] (by simp)
  | c :: more =>
    have shorter : (c :: more).length < (b :: rest).length := by
      rw [ht] at le
      exact Nat.lt_succ_of_le le
    if (digit? c).isSome then longWhole positive taken.1 (b :: rest) (c :: more) shorter
    else afterWhole positive taken.1 (b :: rest) (c :: more) shorter

/-- Reads a number behind its sign. -/
def readNumber (positive : Bool) : (s : List UInt8) → Except Failure (Found Number s)
  | [] => failAt .eofInValue []
  | b :: rest =>
    match digit? b with
    | none => failAt .invalidNumber rest
    | some d => if d = 0 then afterZero positive b rest else afterDigit positive d b rest

/-! ## Values -/

/-- Reads the letters of a word behind its first one. -/
def ident (result : Json) : List UInt8 → (s : List UInt8) → (t : List UInt8) →
    t.length < s.length → Except Failure (Found Json s)
  | [], _, t, h => .ok ⟨result, t, h⟩
  | _ :: _, _, [], _ => failAt .eofInValue []
  | e :: es, s, b :: rest, h =>
    if b = e then ident result es s rest (by simp only [List.length_cons] at h; omega)
    else failAt .expectedIdent rest

/-- A reader of one value. -/
abbrev ValueReader := (s : List UInt8) → Except Failure (Found Json s)

/-- Steps to the next item of an array at a byte that does not close it: the first item stands
there, any other behind a comma. -/
def toItem (first : Bool) (b : UInt8) (rest : List UInt8) : Except Failure (List UInt8) :=
  if first then .ok (b :: rest)
  else if b = 44 then
    match skipSpace rest with
    | [] => failPast .eofInValue []
    | c :: more => if c = 93 then failPast .trailingComma (c :: more) else .ok (c :: more)
  else failPast .expectedArrayCommaOrEnd (b :: rest)

/-- The step to an item leaves no more bytes than there were. -/
theorem to_item_length_le {first : Bool} {b : UInt8} {rest t : List UInt8}
    (h : toItem first b rest = .ok t) : t.length ≤ (b :: rest).length := by
  unfold toItem at h
  have := skip_space_length_le rest
  split at h
  · simp_all
  · split at h
    · split at h
      · simp [failPast] at h
      · next heq =>
        split at h
        · simp [failPast] at h
        · simp only [Except.ok.injEq] at h
          rw [heq] at this
          rw [← h]
          simp only [List.length_cons] at *
          omega
    · simp [failPast] at h

/-- Reads the items of an array up to and with its closing bracket. -/
def items (item : ValueReader) (first : Bool) (s : List UInt8) :
    Except Failure (Found (List Json) s) :=
  match hs : skipSpace s with
  | [] => failPast .eofInArray []
  | b :: rest =>
    have skipped : (b :: rest).length ≤ s.length := hs ▸ skip_space_length_le s
    if b = 93 then .ok ⟨[], rest, by simp only [List.length_cons] at skipped; omega⟩
    else match ht : toItem first b rest with
      | .error e => .error e
      | .ok t =>
        have stepped : t.length ≤ (b :: rest).length := to_item_length_le ht
        match item t with
        | .error e => .error e
        | .ok v =>
          have := v.shorter
          match items item false v.rest with
          | .error e => .error e
          | .ok later => .ok ⟨v.value :: later.value, later.rest, by
              have := later.shorter
              omega⟩
termination_by s.length

/-- Steps to the opening quote of the next name of an object at a byte that does not close
it. -/
def toName (first : Bool) (b : UInt8) (rest : List UInt8) : Except Failure (List UInt8) :=
  if first then
    if b = 34 then .ok rest else failPast .keyMustBeString (b :: rest)
  else if b = 44 then
    match skipSpace rest with
    | [] => failPast .eofInValue []
    | c :: more =>
      if c = 34 then .ok more
      else if c = 125 then failPast .trailingComma (c :: more)
      else failPast .keyMustBeString (c :: more)
  else failPast .expectedObjectCommaOrEnd (b :: rest)

/-- The step to the name of a member takes a byte. -/
theorem to_name_length_lt {first : Bool} {b : UInt8} {rest t : List UInt8}
    (h : toName first b rest = .ok t) : t.length < (b :: rest).length := by
  unfold toName at h
  have := skip_space_length_le rest
  split at h
  · split at h
    · simp only [Except.ok.injEq] at h
      simp [h]
    · simp [failPast] at h
  · split at h
    · split at h
      · simp [failPast] at h
      · next heq =>
        split at h
        · simp only [Except.ok.injEq] at h
          rw [heq] at this
          rw [← h]
          simp only [List.length_cons] at *
          omega
        · split at h <;> simp [failPast] at h
    · simp [failPast] at h

/-- Steps over the colon behind a name. -/
def colon (s : List UInt8) : Except Failure (Found Unit s) :=
  match hs : skipSpace s with
  | [] => failPast .eofInObject []
  | b :: rest =>
    if b = 58 then .ok ⟨(), rest, by
      have := hs ▸ skip_space_length_le s
      simp only [List.length_cons] at this
      omega⟩
    else failPast .expectedColon (b :: rest)

/-- Reads one member behind the opening quote of its name. -/
def member (item : ValueReader) (s : List UInt8) : Except Failure (Found (String × Json) s) :=
  match readString s with
  | .error e => .error e
  | .ok name =>
    match colon name.rest with
    | .error e => .error e
    | .ok c =>
      match item c.rest with
      | .error e => .error e
      | .ok v => .ok ⟨(name.value, v.value), v.rest, by
          have := name.shorter
          have := c.shorter
          have := v.shorter
          omega⟩

/-- Reads the members of an object up to and with its closing brace. -/
def members (item : ValueReader) (first : Bool) (s : List UInt8) :
    Except Failure (Found (List (String × Json)) s) :=
  match hs : skipSpace s with
  | [] => failPast .eofInObject []
  | b :: rest =>
    have skipped : (b :: rest).length ≤ s.length := hs ▸ skip_space_length_le s
    if b = 125 then .ok ⟨[], rest, by simp only [List.length_cons] at skipped; omega⟩
    else match ht : toName first b rest with
      | .error e => .error e
      | .ok t =>
        have stepped : t.length < (b :: rest).length := to_name_length_lt ht
        match member item t with
        | .error e => .error e
        | .ok m =>
          have := m.shorter
          match members item false m.rest with
          | .error e => .error e
          | .ok later => .ok ⟨m.value :: later.value, later.rest, by
              have := later.shorter
              omega⟩
termination_by s.length

/-- Reads one value whose first byte is `b`, where arrays and objects may nest `depth` deep. The
reader `inner` reads what stands inside one of them. -/
def valueAt (inner : Option ValueReader) (b : UInt8) (rest : List UInt8) :
    Except Failure (Found Json (b :: rest)) :=
  if b = 110 then ident .null [117, 108, 108] (b :: rest) rest (by simp)
  else if b = 116 then ident (.bool true) [114, 117, 101] (b :: rest) rest (by simp)
  else if b = 102 then ident (.bool false) [97, 108, 115, 101] (b :: rest) rest (by simp)
  else if b = 45 then
    match readNumber false rest with
    | .error e => .error e
    | .ok n => .ok (n.behind b .number)
  else if (digit? b).isSome then
    match readNumber true (b :: rest) with
    | .error e => .error e
    | .ok n => .ok ⟨.number n.value, n.rest, n.shorter⟩
  else if b = 34 then
    match readString rest with
    | .error e => .error e
    | .ok t => .ok (t.behind b .string)
  else if b = 91 ∨ b = 123 then
    match inner with
    | none => failPast .nestedTooDeep (b :: rest)
    | some item =>
      if b = 91 then
        match items item true rest with
        | .error e => .error e
        | .ok t => .ok (t.behind b .array)
      else
        match members item true rest with
        | .error e => .error e
        | .ok t => .ok (t.behind b .object)
  else failPast .expectedValue (b :: rest)

/-- Reads one value, with the reader of what stands inside an array or an object. -/
def valueWith (inner : Option ValueReader) (s : List UInt8) : Except Failure (Found Json s) :=
  match hs : skipSpace s with
  | [] => failPast .eofInValue []
  | b :: rest =>
    match valueAt inner b rest with
    | .error e => .error e
    | .ok v => .ok (v.widen s (hs ▸ skip_space_length_le s))

/-- Reads one value, in which arrays and objects may nest `depth` deep. -/
def value : Nat → ValueReader
  | 0 => valueWith none
  | depth + 1 => valueWith (some (value depth))

/-- How deep arrays and objects may nest. -/
def maxDepth : Nat := 127

/-- Where a text was looked at when a fault was met: a line, and a column counted in bytes. -/
structure Position where
  line : Nat
  column : Nat
  deriving DecidableEq

/-- The position behind the first bytes of a text. -/
def Position.behind (bytes : List UInt8) : Position :=
  ⟨1 + bytes.count 10, (bytes.reverse.takeWhile (· ≠ 10)).length⟩

/-- A fault and its place. -/
structure ReadError where
  fault : Fault
  position : Position
  deriving DecidableEq

/-- The sentence for a fault and its place. -/
def ReadError.message (e : ReadError) : String :=
  e.fault.message ++ " at line " ++ Text.ofNat e.position.line ++ " column " ++
    Text.ofNat e.position.column

/-- Reads the bytes of a text as one value. -/
def readBytes (s : List UInt8) : Except ReadError Json :=
  let placed (e : Failure) : ReadError := ⟨e.fault, .behind (s.take (s.length - e.left))⟩
  match value maxDepth s with
  | .error e => .error (placed e)
  | .ok v =>
    match skipSpace v.rest with
    | [] => .ok v.value
    | rest => .error (placed ⟨.trailingCharacters, rest.length - 1⟩)

/-- Reads a text as one value. -/
def read (text : String) : Except ReadError Json :=
  readBytes (Text.utf8 text)

end EngineLink.Json
