import EngineLink.Proofs.Json.Magnitudes
import EngineLink.Proofs.Json.Objects

/-!
# Reading printed numbers

The text of a number is read as some number, whatever ends it.
-/

namespace EngineLink.Json

/-! ## Digits -/

/-- What may stand behind digits: anything but another one. -/
def EndsDigits (rest : List UInt8) : Prop :=
  ∀ b ∈ rest.head?, digit? b = none

/-- A digit is one byte. -/
theorem utf8_chars_digit {c : Char} (hc : c.isDigit) (cs : List Char) :
    Text.utf8Chars (c :: cs) = .ofNat c.toNat :: Text.utf8Chars cs := by
  have hrange := Text.to_nat_of_is_digit hc
  show String.utf8EncodeChar c ++ Text.utf8Chars cs = _
  rw [Text.utf8_of_ascii (by omega), List.singleton_append]

/-- The byte of a digit is read as the digit. -/
theorem digit_of_char {c : Char} (hc : c.isDigit) :
    digit? (.ofNat c.toNat) = some (c.toNat - '0'.toNat) := by
  have hrange := Text.to_nat_of_is_digit hc
  have hbyte : (UInt8.ofNat c.toNat).toNat = c.toNat := by
    rw [UInt8.toNat_ofNat']
    omega
  rw [digit?, if_pos, hbyte]
  · rfl
  · rw [UInt8.le_iff_toNat_le, UInt8.le_iff_toNat_le, hbyte]
    exact hrange

section
variable {cs : List Char} (hcs : ∀ c ∈ cs, c.isDigit) {rest : List UInt8} (hrest : EndsDigits rest)
include hcs hrest

/-- Digits continue a significand by their value as long as it stays small enough. -/
theorem take_digits_append {start : Nat} (hmax : Nat.ofDigitChars 10 cs start ≤ maxSignificand) :
    takeDigits start (Text.utf8Chars cs ++ rest) =
      (Nat.ofDigitChars 10 cs start, cs.length, rest) := by
  induction cs generalizing start with
  | nil =>
      cases rest with
      | nil => rfl
      | cons b more =>
          show takeDigits start (b :: more) = _
          rw [takeDigits, hrest b rfl]
          rfl
  | cons c cs ih =>
      rw [List.forall_mem_cons] at hcs
      rw [Nat.ofDigitChars_cons] at hmax ⊢
      have hle := Text.le_of_digit_chars cs (10 * start + (c.toNat - '0'.toNat))
      have hfits : ¬ maxSignificand < 10 * start + (c.toNat - '0'.toNat) := by omega
      rw [utf8_chars_digit hcs.1, List.cons_append, takeDigits, digit_of_char hcs.1]
      simp only [Nat.mul_comm start 10, if_neg hfits, ih hcs.2 hmax, List.length_cons]

/-- Digits continue an exponent by their value as long as it stays small enough. -/
theorem exponent_digits_append {start : Nat}
    (hmax : Nat.ofDigitChars 10 cs start ≤ maxExponent) :
    exponentDigits start (Text.utf8Chars cs ++ rest) =
      .ok (Nat.ofDigitChars 10 cs start, rest) := by
  induction cs generalizing start with
  | nil =>
      cases rest with
      | nil => rfl
      | cons b more =>
          show exponentDigits start (b :: more) = _
          rw [exponentDigits, hrest b rfl]
          rfl
  | cons c cs ih =>
      rw [List.forall_mem_cons] at hcs
      rw [Nat.ofDigitChars_cons] at hmax ⊢
      have hle := Text.le_of_digit_chars cs (10 * start + (c.toNat - '0'.toNat))
      have hfits : ¬ maxExponent < 10 * start + (c.toNat - '0'.toNat) := by omega
      rw [utf8_chars_digit hcs.1, List.cons_append, exponentDigits, digit_of_char hcs.1]
      simp only [Nat.mul_comm start 10, if_neg hfits, ih hcs.2 hmax]

end

/-! ## Behind the digits -/

/-- A reader found a number and stopped in front of these bytes. -/
def FindsNumber {s : List UInt8} (result : Except Failure (Found Number s)) (rest : List UInt8) :
    Prop :=
  ∃ n, Finds result n rest

/-- What may stand behind a number: nothing that would continue it. -/
def EndsNumber (rest : List UInt8) : Prop :=
  ∀ b ∈ rest.head?, digit? b = none ∧ b ≠ 46 ∧ isExponentMark b = false

/-- What ends a number ends its digits. -/
theorem EndsNumber.ends_digits {rest : List UInt8} (h : EndsNumber rest) : EndsDigits rest :=
  fun b hb => (h b hb).1

/-- A number is made of a significand and an exponent if these are in range. -/
theorem float_of_scaled {significand : Nat} {exponent : Int}
    (h : ∃ x, scaled? significand exponent = some x) (positive : Bool) (rest : List UInt8) :
    ∃ n, floatOf positive significand exponent rest = .ok n := by
  obtain ⟨x, hx⟩ := h
  exact ⟨_, by rw [floatOf, hx]⟩

/-- A number may end behind its digits. -/
theorem finds_after_digits_end {significand : Nat} {exponent : Int}
    (hscaled : ∃ x, scaled? significand exponent = some x) {t : List UInt8} (hend : EndsNumber t)
    (positive : Bool) {s : List UInt8} (h : t.length < s.length) :
    FindsNumber (afterDigits positive significand exponent s t h) t := by
  obtain ⟨n, hn⟩ := float_of_scaled hscaled positive t
  refine ⟨n, h, ?_⟩
  unfold afterDigits
  cases t with
  | nil => rw [hn]
  | cons b rest => simp only [(hend b rfl).2.2, hn, Bool.false_eq_true, if_false]

/-- The byte of the sign of an exponent. -/
def signByte (plus : Bool) : UInt8 :=
  bif plus then 43 else 45

/-- An exponent is read if it has a sign and at least one digit. -/
theorem finds_signed_exponent {significand : Nat} {start : Int} {positive plus : Bool}
    {b : UInt8} {more after : List UInt8} {d v : Nat} {n : Number} (hd : digit? b = some d)
    (hdigits : exponentDigits d more = .ok (v, after))
    (hn : floatOf positive significand (if plus then start + v else start - v) after = .ok n) :
    Finds (exponentPart positive significand start (signByte plus :: b :: more)) n after := by
  have hle := (exponent_digits_length_le d more).1 v after hdigits
  refine ⟨by simp only [List.length_cons]; omega, ?_⟩
  cases plus <;>
  · unfold exponentPart
    dsimp only [signByte, cond]
    split
    · next h => cases h
    · next h =>
        cases h
        simp only [hd]
        split
        · next heq =>
            cases hdigits.symm.trans heq
            split
            · next hfloat => cases hn.symm.trans hfloat
            · next hfloat =>
                cases hn.symm.trans hfloat
                rfl
        · next heq => cases hdigits.symm.trans heq

/-- The bytes of an exponent behind its mark. -/
def exponentBytes (x : Int) : List UInt8 :=
  signByte (0 ≤ x) :: Text.utf8Chars (Nat.toDigits 10 x.natAbs)

/-- The digits of a number are decimal ones. -/
theorem is_digit_of_to_digits (n : Nat) : ∀ c ∈ Nat.toDigits 10 n, c.isDigit := fun _ hc =>
  Nat.isDigit_of_mem_toDigits (by decide) (by decide) hc

/-- A printed exponent is read, and leaves what stands behind its digits. -/
theorem finds_exponent {significand : Nat} {start x : Int} (hx : x.natAbs ≤ maxExponent)
    (hscaled : ∃ y, scaled? significand (start + x) = some y) {rest : List UInt8}
    (hrest : EndsDigits rest) (positive : Bool) :
    FindsNumber (exponentPart positive significand start (exponentBytes x ++ rest)) rest := by
  have hall := is_digit_of_to_digits x.natAbs
  have hvalue := Nat.ofDigitChars_ten_toDigits (n := x.natAbs)
  rw [exponentBytes]
  obtain ⟨c, cs, hdigits⟩ := List.exists_cons_of_ne_nil (Nat.toDigits_ne_nil (b := 10))
  rw [hdigits] at hall hvalue ⊢
  rw [List.forall_mem_cons] at hall
  rw [Nat.ofDigitChars_cons, Nat.mul_zero, Nat.zero_add] at hvalue
  have hread := exponent_digits_append hall.2 hrest (hvalue.trans_le hx)
  rw [hvalue] at hread
  obtain ⟨n, hn⟩ := float_of_scaled hscaled positive rest
  refine ⟨n, ?_⟩
  rw [utf8_chars_digit hall.1]
  refine finds_signed_exponent (digit_of_char hall.1) hread (hn ▸ congrArg (floatOf _ _ · _) ?_)
  simp only [decide_eq_true_eq]
  split
  · omega
  · omega

section
variable {positive : Bool} {significand : Nat} {exponent : Int} {s rest r : List UInt8}

/-- Behind the digits of a fraction an exponent is read. -/
theorem finds_after_digits_exponent
    (hexponent : FindsNumber (exponentPart positive significand exponent rest) r)
    (h : (101 :: rest).length < s.length) :
    FindsNumber (afterDigits positive significand exponent s (101 :: rest) h) r := by
  obtain ⟨n, hshorter, hok⟩ := hexponent
  refine ⟨n, by simp only [List.length_cons] at h; omega, ?_⟩
  unfold afterDigits
  simp only [show isExponentMark 101 = true from rfl, if_true, hok]
  rfl

/-- Digits behind a point continue the significand and lower the exponent. -/
theorem finds_fraction {cs : List Char} (hcs : ∀ c ∈ cs, c.isDigit) (hne : cs ≠ [])
    (hrest : EndsDigits rest) (hmax : Nat.ofDigitChars 10 cs significand ≤ maxSignificand)
    (hafter : ∀ h, FindsNumber (afterDigits positive (Nat.ofDigitChars 10 cs significand)
      (exponent - cs.length) s rest h) r)
    (h : (Text.utf8Chars cs ++ rest).length < s.length) :
    FindsNumber (fractionPart positive significand exponent s (Text.utf8Chars cs ++ rest) h) r := by
  have htaken := take_digits_append hcs hrest hmax
  have hcount : cs.length ≠ 0 := fun hzero => hne (List.length_eq_zero_iff.1 hzero)
  have hshorter : rest.length < s.length := by
    rw [List.length_append] at h
    omega
  obtain ⟨n, hless, hok⟩ := hafter hshorter
  refine ⟨n, hless, ?_⟩
  unfold fractionPart
  dsimp only
  split
  · next hnil =>
      rw [htaken] at hnil
      obtain rfl : rest = [] := hnil
      simp only [htaken, if_neg hcount, hok]
  · next b more hcons =>
      rw [htaken] at hcons
      obtain rfl : rest = b :: more := hcons
      simp only [htaken, hrest b rfl, if_neg hcount, hok, Option.isSome_none, Bool.false_eq_true,
        if_false]

/-- A number may end behind its whole digits. -/
theorem finds_after_whole_end (hend : EndsNumber rest) (h : rest.length < s.length) :
    FindsNumber (afterWhole positive significand s rest h) rest := by
  refine ⟨wholeNumber positive significand, h, ?_⟩
  unfold afterWhole
  cases rest with
  | nil => rfl
  | cons b more =>
      obtain ⟨-, hpoint, hmark⟩ := hend b rfl
      simp only [if_neg hpoint, hmark, Bool.false_eq_true, if_false]

/-- Behind the whole digits an exponent is read. -/
theorem finds_after_whole_exponent
    (hexponent : FindsNumber (exponentPart positive significand 0 rest) r)
    (h : (101 :: rest).length < s.length) :
    FindsNumber (afterWhole positive significand s (101 :: rest) h) r := by
  obtain ⟨n, hless, hok⟩ := finds_after_digits_exponent hexponent h
  refine ⟨n, hless, ?_⟩
  unfold afterWhole
  simp only [show isExponentMark 101 = true from rfl, if_true, hok,
    if_neg (by decide : ¬ (101 : UInt8) = 46)]

/-- Behind the whole digits a fraction is read. -/
theorem finds_after_whole_point (h : (46 :: rest).length < s.length)
    (hfraction : ∀ h, FindsNumber (fractionPart positive significand 0 s rest h) r) :
    FindsNumber (afterWhole positive significand s (46 :: rest) h) r := by
  obtain ⟨n, hless, hok⟩ := hfraction (by simp only [List.length_cons] at h; omega)
  refine ⟨n, hless, ?_⟩
  unfold afterWhole
  simp only [if_true, hok]

/-! ## Numbers -/

/-- Whole digits do not begin with a zero, unless they are one. -/
def Whole (cs : List Char) : Prop :=
  (∀ c ∈ cs, c.isDigit) ∧ (cs = ['0'] ∨ ∃ c more, cs = c :: more ∧ c ≠ '0')

/-- A number is read if what is behind its whole digits is. -/
theorem finds_read_number {cs : List Char} (hcs : Whole cs) (hrest : EndsDigits rest)
    (hmax : Nat.ofDigitChars 10 cs 0 ≤ maxSignificand)
    (hafter : ∀ h, FindsNumber (afterWhole positive (Nat.ofDigitChars 10 cs 0)
      (Text.utf8Chars cs ++ rest) rest h) r) :
    FindsNumber (readNumber positive (Text.utf8Chars cs ++ rest)) r := by
  obtain ⟨hall, hzero | ⟨c, more, hcons, hc⟩⟩ := hcs
  · rw [hzero] at hafter ⊢
    obtain ⟨n, hless, hok⟩ := hafter (Nat.lt_succ_self _)
    refine ⟨n, hless, ?_⟩
    show readNumber positive (48 :: rest) = _
    rw [readNumber, show digit? 48 = some 0 from rfl]
    cases rest with
    | nil => exact hok
    | cons b more =>
        simp only [if_true, afterZero, hrest b rfl, Option.isSome_none, Bool.false_eq_true,
          if_false]
        exact hok
  · rw [hcons] at hall hmax hafter ⊢
    rw [List.forall_mem_cons] at hall
    rw [Nat.ofDigitChars_cons, Nat.mul_zero, Nat.zero_add] at hmax hafter
    have htaken := take_digits_append hall.2 hrest hmax
    have hdigit := digit_of_char hall.1
    have hpos : c.toNat - '0'.toNat ≠ 0 := by
      have hrange := Text.to_nat_of_is_digit hall.1
      have hne : c.toNat ≠ 48 := fun hsame => hc (Char.toNat_inj.1 hsame)
      show c.toNat - 48 ≠ 0
      omega
    rw [utf8_chars_digit hall.1, List.cons_append] at hafter ⊢
    obtain ⟨n, hless, hok⟩ := hafter (by simp only [List.length_cons, List.length_append]; omega)
    refine ⟨n, hless, ?_⟩
    simp only [readNumber, hdigit, if_neg hpos]
    unfold afterDigit
    dsimp only
    split
    · next hnil =>
        rw [htaken] at hnil
        obtain rfl : rest = [] := hnil
        simp only [htaken, hok]
    · next b tail hcons =>
        rw [htaken] at hcons
        obtain rfl : rest = b :: tail := hcons
        simp only [htaken, hrest b rfl, Option.isSome_none, Bool.false_eq_true, if_false, hok]

end

/-! ## Printed numbers -/

/-- Bytes behind two texts stand behind the second one. -/
theorem utf8_chars_append_bytes (cs : List Char) (tail : List Char) (rest : List UInt8) :
    Text.utf8Chars (cs ++ tail) ++ rest = Text.utf8Chars cs ++ (Text.utf8Chars tail ++ rest) := by
  rw [Text.utf8_chars_append, List.append_assoc]

/-- The digits of a number are whole digits of its value. -/
theorem whole_to_digits (n : Nat) : Whole (Nat.toDigits 10 n) := by
  refine ⟨is_digit_of_to_digits n, ?_⟩
  rcases Nat.eq_zero_or_pos n with rfl | hpos
  · exact .inl (Nat.toDigits_zero 10)
  · exact .inr (Text.to_digits_cons hpos.ne')

/-- A whole number of 64 bits is read. -/
theorem finds_whole_number {n : Nat} (hn : n ≤ maxSignificand) {rest : List UInt8}
    (hend : EndsNumber rest) (positive : Bool) :
    FindsNumber (readNumber positive (Text.utf8Chars (Nat.toDigits 10 n) ++ rest)) rest :=
  finds_read_number (whole_to_digits n) hend.ends_digits
    (Nat.ofDigitChars_ten_toDigits.trans_le hn) (finds_after_whole_end hend)

/-- Whole digits, a point and more digits, which all fit into the significand. -/
def Pointed (text : List Char) : Prop :=
  ∃ whole fraction, text = whole ++ '.' :: fraction ∧ Whole whole ∧
    (∀ c ∈ fraction, c.isDigit) ∧ fraction ≠ [] ∧
    Nat.ofDigitChars 10 (whole ++ fraction) 0 ≤ maxSignificand

/-- The bytes of a printed exponent. -/
theorem utf8_chars_exponent (x : Int) (rest : List UInt8) :
    Text.utf8Chars ('e' :: ((if x < 0 then ['-'] else if true then ['+'] else []) ++
      Text.digits x.natAbs)) ++ rest = 101 :: (exponentBytes x ++ rest) := by
  rw [Text.digits_eq_to_digits, exponentBytes]
  rcases lt_or_ge x 0 with hneg | hpos
  · rw [if_pos hneg, decide_eq_false (not_le.2 hneg)]
    rfl
  · rw [if_neg (not_lt.2 hpos), decide_eq_true hpos]
    rfl

/-- A number with a point is read. -/
theorem finds_pointed_number {text : List Char} (htext : Pointed text) {rest : List UInt8}
    (hend : EndsNumber rest) (positive : Bool) :
    FindsNumber (readNumber positive (Text.utf8Chars text ++ rest)) rest := by
  obtain ⟨whole, fraction, rfl, hwhole, hfraction, hne, hmax⟩ := htext
  rw [Nat.ofDigitChars_append] at hmax
  have hbytes : Text.utf8Chars ('.' :: fraction) ++ rest =
      46 :: (Text.utf8Chars fraction ++ rest) := rfl
  have hpoint : EndsDigits (46 :: (Text.utf8Chars fraction ++ rest)) := by
    rintro _ ⟨⟩
    rfl
  have hexponent : (0 : Int) - fraction.length < 0 := by
    have := List.length_pos_iff.2 hne
    omega
  rw [utf8_chars_append_bytes, hbytes]
  refine finds_read_number hwhole hpoint ((Text.le_of_digit_chars _ _).trans hmax) fun h => ?_
  refine finds_after_whole_point h fun h => ?_
  refine finds_fraction hfraction hne hend.ends_digits hmax (fun h => ?_) h
  exact finds_after_digits_end ⟨_, if_pos hexponent⟩ hend positive h

/-- Zeros are digits. -/
theorem is_digit_of_zeros (count : Nat) : ∀ c ∈ List.replicate count '0', c.isDigit := by
  intro c hc
  rw [List.eq_of_mem_replicate hc]
  rfl

/-- Zeros may fill the places up to the point. -/
theorem pointed_behind {n zeros : Nat} (hn : n ≠ 0)
    (hplaces : (Nat.toDigits 10 n).length + zeros ≤ 16) :
    Pointed (Nat.toDigits 10 n ++ List.replicate zeros '0' ++ '.' :: ['0']) := by
  obtain ⟨c, more, hcons, hc⟩ := Text.to_digits_cons hn
  have hall : ∀ d ∈ Nat.toDigits 10 n ++ List.replicate zeros '0', d.isDigit :=
    List.forall_mem_append.2 ⟨is_digit_of_to_digits n, is_digit_of_zeros zeros⟩
  refine ⟨_, _, rfl, ⟨hall, .inr ⟨c, more ++ List.replicate zeros '0', ?_, hc⟩⟩, by simp, by simp,
    ?_⟩
  · rw [hcons, List.cons_append]
  · have hless := Text.digit_chars_lt (List.forall_mem_append.2 ⟨hall, is_digit_of_zeros 1⟩) 0
    refine hless.le.trans ?_
    rw [Nat.zero_add, Nat.one_mul, List.length_append, List.length_append, List.length_replicate,
      List.length_replicate]
    exact (Nat.pow_le_pow_right (by decide) (by omega : _ ≤ 17)).trans (by decide)

section
variable {n : Nat} (hmax : n ≤ 2 * 10 ^ 18)
include hmax

/-- The digits of a number that is not too large fit into the significand. -/
theorem value_le_max_significand : Nat.ofDigitChars 10 (Nat.toDigits 10 n) 0 ≤ maxSignificand :=
  (Nat.ofDigitChars_ten_toDigits.trans_le hmax).trans (by decide)

/-- In front of the digits there may be a zero, the point and more zeros. -/
theorem pointed_below_one (zeros : Nat) :
    Pointed ('0' :: '.' :: (List.replicate zeros '0' ++ Nat.toDigits 10 n)) := by
  refine ⟨['0'], _, rfl, ⟨by simp, .inl rfl⟩, ?_, ?_, ?_⟩
  · exact List.forall_mem_append.2 ⟨is_digit_of_zeros zeros, is_digit_of_to_digits n⟩
  · exact List.append_ne_nil_of_right_ne_nil _ Nat.toDigits_ne_nil
  · rw [Nat.ofDigitChars_append, Nat.ofDigitChars_append, Nat.ofDigitChars_replicate_zero]
    exact value_le_max_significand hmax

variable (hn : n ≠ 0)
include hn

/-- The point may stand among the digits. -/
theorem pointed_inside {places : Nat} (hpos : places ≠ 0)
    (hinside : places < (Nat.toDigits 10 n).length) :
    Pointed ((Nat.toDigits 10 n).take places ++ '.' :: (Nat.toDigits 10 n).drop places) := by
  obtain ⟨c, more, hcons, hc⟩ := Text.to_digits_cons hn
  obtain ⟨count, rfl⟩ := Nat.exists_eq_succ_of_ne_zero hpos
  have hall := is_digit_of_to_digits n
  have hwhole : ∀ d ∈ (Nat.toDigits 10 n).take (count + 1), d.isDigit :=
    fun d hd => hall d (List.mem_of_mem_take hd)
  refine ⟨_, _, rfl, ⟨hwhole, .inr ⟨c, more.take count, ?_, hc⟩⟩,
    fun d hd => hall d (List.mem_of_mem_drop hd), ?_, ?_⟩
  · rw [hcons, List.take_succ_cons]
  · rw [Ne, List.drop_eq_nil_iff]
    exact not_le.2 hinside
  · rw [List.take_append_drop]
    exact value_le_max_significand hmax

/-- A positional decimal of at most sixteen places has a point. -/
theorem pointed_positional {places : Int} (hplaces : places ≤ 16) :
    Pointed (Decimal.positional (Nat.toDigits 10 n) places) := by
  unfold Decimal.positional
  split
  · exact pointed_below_one hmax _
  · next hpos =>
      dsimp only
      rcases Nat.lt_or_ge places.toNat (Nat.toDigits 10 n).length with hinside | hbehind
      · have hpart : (Nat.toDigits 10 n).drop places.toNat ≠ [] := by
          rw [Ne, List.drop_eq_nil_iff]
          exact not_le.2 hinside
        rw [Nat.sub_eq_zero_of_le hinside.le, List.replicate_zero, List.append_nil, if_neg hpart]
        exact pointed_inside hmax hn (by omega) hinside
      · have hlength : (Nat.toDigits 10 n ++
            List.replicate (places.toNat - (Nat.toDigits 10 n).length) '0').length =
              places.toNat := by
          rw [List.length_append, List.length_replicate]
          omega
        rw [List.take_of_length_le hlength.le, if_pos (List.drop_of_length_le hlength.le)]
        exact pointed_behind hn (by omega)

/-- An exponent is small if the reader accepts the decimal. -/
theorem exponent_le {k : Int} (hk : Binary64.minExponent ≤ k)
    (hscaled : ∃ x, scaled? n k = some x) :
    ((Nat.toDigits 10 n).length + k - 1).natAbs ≤ maxExponent := by
  have hlength : (Nat.toDigits 10 n).length ≤ 19 := by
    rw [Nat.length_toDigits_le_iff (by decide) (by decide)]
    omega
  have hpower : k ≤ maxPower := by
    by_contra hnot
    have hmore : (maxPower : Int) < k := not_le.1 hnot
    obtain ⟨x, hx⟩ := hscaled
    rw [scaled?, if_neg (by omega), if_pos hmore, if_neg hn] at hx
    cases hx
  rw [Binary64.minExponent] at hk
  rw [maxPower] at hpower
  rw [maxExponent]
  omega

/-- A decimal with an exponent is read if the reader accepts it. -/
theorem finds_scientific {k : Int} (hk : Binary64.minExponent ≤ k)
    (hscaled : ∃ x, scaled? n k = some x) {rest : List UInt8} (hend : EndsNumber rest)
    (positive : Bool) :
    FindsNumber (readNumber positive (Text.utf8Chars (Decimal.scientific true (Nat.toDigits 10 n)
      ((Nat.toDigits 10 n).length + k - 1)) ++ rest)) rest := by
  have hsmall := exponent_le hmax hn hk hscaled
  have hvalue := value_le_max_significand hmax
  have hall := is_digit_of_to_digits n
  have hn' := Nat.ofDigitChars_ten_toDigits (n := n)
  obtain ⟨c, more, hcons, hc⟩ := Text.to_digits_cons hn
  rw [hcons] at hsmall hvalue hall hn' ⊢
  rw [List.forall_mem_cons] at hall
  have hwhole : Whole [c] := ⟨List.forall_mem_singleton.2 hall.1, .inr ⟨c, [], rfl, hc⟩⟩
  generalize hx : ((c :: more).length : Int) + k - 1 = x at hsmall ⊢
  rw [List.length_cons] at hx
  have hmark : EndsDigits (101 :: (exponentBytes x ++ rest)) := by
    rintro _ ⟨⟩
    rfl
  cases more with
  | nil =>
      have htext : Text.utf8Chars (Decimal.scientific true [c] x) ++ rest =
          Text.utf8Chars [c] ++ 101 :: (exponentBytes x ++ rest) := by
        rw [← utf8_chars_exponent, ← utf8_chars_append_bytes]
        rfl
      rw [htext]
      refine finds_read_number hwhole hmark hvalue fun h => ?_
      refine finds_after_whole_exponent (finds_exponent hsmall ?_ hend.ends_digits positive) h
      rw [hn', show 0 + x = k by rw [List.length_nil] at hx; omega]
      exact hscaled
  | cons d more =>
      have htext : Text.utf8Chars (Decimal.scientific true (c :: d :: more) x) ++ rest =
          Text.utf8Chars [c] ++ 46 :: (Text.utf8Chars (d :: more) ++
            101 :: (exponentBytes x ++ rest)) := by
        rw [← utf8_chars_exponent, ← utf8_chars_append_bytes (d :: more)]
        exact utf8_chars_append_bytes [c] ('.' :: (d :: more ++ 'e' :: _)) rest
      have hpoint : EndsDigits (46 :: (Text.utf8Chars (d :: more) ++
          101 :: (exponentBytes x ++ rest))) := by
        rintro _ ⟨⟩
        rfl
      rw [Nat.ofDigitChars_cons] at hn' hvalue
      rw [htext]
      refine finds_read_number hwhole hpoint ((Text.le_of_digit_chars _ _).trans hvalue)
        fun h => ?_
      refine finds_after_whole_point h fun h => ?_
      refine finds_fraction hall.2 (List.cons_ne_nil d more) hmark hvalue (fun h => ?_) h
      refine finds_after_digits_exponent (finds_exponent hsmall ?_ hend.ends_digits positive) h
      rw [hn', show 0 - ((d :: more).length : Int) + x = k by omega]
      exact hscaled

end

/-- The shortest text of a magnitude is read. -/
theorem finds_float {m : Nat} {e : Int} (hbits : m < 2 ^ 53) (hleast : Binary64.minExponent ≤ e)
    (hgreatest : e ≤ 971) {rest : List UInt8} (hend : EndsNumber rest) (positive : Bool) :
    FindsNumber (readNumber positive (Text.utf8Chars (floatStyle.chars (Decimal.shortest m e).1
      (Decimal.shortest m e).2) ++ rest)) rest := by
  by_cases hm : m = 0
  · have htext : floatStyle.chars (Decimal.shortest m e).1 (Decimal.shortest m e).2 =
        ['0'] ++ '.' :: ['0'] := by
      rw [hm, Decimal.shortest, if_pos rfl]
      simp only [Decimal.Style.chars, Text.digits_eq_to_digits, true_or, if_true]
      rfl
    rw [htext]
    exact finds_pointed_number ⟨_, _, rfl, ⟨by simp, .inl rfl⟩, by simp, by simp, by decide⟩ hend
      positive
  · obtain ⟨⟨hn, hmax⟩, hk, -⟩ := Decimal.shortest_bounds hm hbits hleast
    have hscaled := scaled_of_shortest hm hbits hleast hgreatest
    generalize Decimal.shortest m e = d at hn hmax hk hscaled ⊢
    have htext : floatStyle.chars d.1 d.2 = if (-5 ≤ (Nat.toDigits 10 d.1).length + d.2 - 1 ∧
          (Nat.toDigits 10 d.1).length + d.2 - 1 ≤ 15)
        then Decimal.positional (Nat.toDigits 10 d.1) ((Nat.toDigits 10 d.1).length + d.2)
        else Decimal.scientific true (Nat.toDigits 10 d.1)
          ((Nat.toDigits 10 d.1).length + d.2 - 1) := by
      simp only [Decimal.Style.chars, Text.digits_eq_to_digits, hn, false_or, floatStyle]
    rw [htext]
    by_cases hrange : -5 ≤ (Nat.toDigits 10 d.1).length + d.2 - 1 ∧
        (Nat.toDigits 10 d.1).length + d.2 - 1 ≤ 15
    · rw [if_pos hrange]
      exact finds_pointed_number (pointed_positional hmax hn (by omega)) hend positive
    · rw [if_neg hrange]
      exact finds_scientific hmax hn hk hscaled hend positive

/-! ## Values -/

/-- The bytes of a number without its sign: they are read, whatever ends the number. -/
def Magnitude (positive : Bool) (text : List UInt8) : Prop :=
  ∀ rest, EndsNumber rest → FindsNumber (readNumber positive (text ++ rest)) rest

/-- The end of the text ends a number. -/
theorem ends_number_nil : EndsNumber [] := by
  rintro _ ⟨⟩

/-- A magnitude begins with a digit. -/
theorem Magnitude.first {positive : Bool} {text : List UInt8} (h : Magnitude positive text) :
    ∃ b more d, text = b :: more ∧ digit? b = some d := by
  have hread := h [] ends_number_nil
  rw [List.append_nil] at hread
  obtain ⟨n, hless, hok⟩ := hread
  cases text with
  | nil => cases hok
  | cons b more =>
      cases hb : digit? b with
      | none =>
          rw [readNumber, hb] at hok
          cases hok
      | some d => exact ⟨b, more, d, rfl, hb⟩

/-- A number that a word of 64 bits holds, with or without a sign, or a floating-point number. -/
def Number.Fits : Number → Prop
  | .integer n => -(2 ^ 63) ≤ n ∧ n < 2 ^ 64
  | .float _ => True

/-- The text of a number is a magnitude, with or without a minus sign, or the word for a number that
is not finite. -/
theorem number_chars_cases {n : Number} (h : n.Fits) :
    (∃ text, Text.utf8Chars n.chars = 45 :: text ∧ Magnitude false text) ∨
      Magnitude true (Text.utf8Chars n.chars) ∨ n.chars = ['n', 'u', 'l', 'l'] := by
  cases n with
  | integer n =>
      obtain ⟨hlow, hhigh⟩ := h
      have hmax : n.natAbs ≤ maxSignificand := by
        rw [maxSignificand]
        omega
      have hmagnitude (positive : Bool) :
          Magnitude positive (Text.utf8Chars (Nat.toDigits 10 n.natAbs)) :=
        fun _ hend => finds_whole_number hmax hend positive
      rw [Number.chars, Text.intChars, Text.digits_eq_to_digits]
      split
      · exact .inl ⟨_, rfl, hmagnitude false⟩
      · exact .inr (.inl (hmagnitude true))
  | float x =>
      rw [Number.chars, Decimal.Style.chars?]
      cases hdatum : x.datum with
      | finite negative m e =>
          obtain ⟨hbits, hleast, hgreatest⟩ := Binary64.datum_bounds hdatum
          have hmagnitude (positive : Bool) : Magnitude positive (Text.utf8Chars
              (floatStyle.chars (Decimal.shortest m e).1 (Decimal.shortest m e).2)) :=
            fun _ hend => finds_float hbits hleast hgreatest hend positive
          cases negative with
          | true => exact .inl ⟨_, rfl, hmagnitude false⟩
          | false => exact .inr (.inl (hmagnitude true))
      | infinite | nan => exact .inr (.inr rfl)

/-- A digit is not a byte that is none. -/
theorem ne_of_digit {b c : UInt8} {d : Nat} (hb : digit? b = some d) (hc : digit? c = none) :
    b ≠ c := by
  rintro rfl
  cases hb.symm.trans hc

/-- At a digit stands a number. -/
theorem value_at_digit {b : UInt8} {d : Nat} (hb : digit? b = some d) (inner : Option ValueReader)
    (rest : List UInt8) : valueAt inner b rest = match readNumber true (b :: rest) with
      | .error e => .error e
      | .ok n => .ok ⟨.number n.value, n.rest, n.shorter⟩ := by
  have hdigit : (digit? b).isSome := hb ▸ rfl
  unfold valueAt
  refine (if_neg (ne_of_digit hb rfl)).trans ((if_neg (ne_of_digit hb rfl)).trans ?_)
  refine (if_neg (ne_of_digit hb rfl)).trans ((if_neg (ne_of_digit hb rfl)).trans ?_)
  exact if_pos hdigit

/-- At a minus sign stands a number. -/
theorem value_at_minus (inner : Option ValueReader) (rest : List UInt8) :
    valueAt inner 45 rest = match readNumber false rest with
      | .error e => .error e
      | .ok n => .ok (n.behind 45 .number) := rfl

/-- The values that are written as a word, with the word. -/
inductive Word : Json → List Char → Prop where
  | null : Word .null ['n', 'u', 'l', 'l']
  | bool (b : Bool) :
      Word (.bool b) (bif b then ['t', 'r', 'u', 'e'] else ['f', 'a', 'l', 's', 'e'])

/-- Behind its first letter a word is read to its end. -/
theorem finds_ident (v : Json) (letters : List UInt8) {s rest : List UInt8}
    (h : (letters ++ rest).length < s.length) :
    Finds (ident v letters s (letters ++ rest) h) v rest := by
  induction letters with
  | nil => exact ⟨h, rfl⟩
  | cons b letters ih =>
      show Finds (if b = b then ident v letters s (letters ++ rest) _ else _) v rest
      rw [if_pos rfl]
      exact ih _

section
variable {s rest : List UInt8} (depth : Nat)

/-- A word is read as its value. -/
theorem finds_word {v : Json} {word : List Char} (h : Word v word)
    (hskip : skipSpace s = Text.utf8Chars word ++ rest) : Finds (value depth s) v rest := by
  cases h with
  | null => exact finds_value hskip fun _ => finds_ident .null [117, 108, 108] (Nat.lt_succ_self _)
  | bool b =>
      cases b with
      | true =>
          exact finds_value hskip fun _ =>
            finds_ident (.bool true) [114, 117, 101] (Nat.lt_succ_self _)
      | false =>
          exact finds_value hskip fun _ =>
            finds_ident (.bool false) [97, 108, 115, 101] (Nat.lt_succ_self _)

/-- The text of a number is read as a value that is no string. -/
theorem finds_number {n : Number} (h : n.Fits)
    (hskip : skipSpace s = Text.utf8Chars n.chars ++ rest) (hend : EndsNumber rest) :
    ∃ found, asString? found = none ∧ Finds (value depth s) found rest := by
  rcases number_chars_cases h with ⟨text, htext, hmagnitude⟩ | hmagnitude | hnull
  · obtain ⟨found, hless, hok⟩ := hmagnitude rest hend
    rw [htext] at hskip
    refine ⟨.number found, rfl, finds_value hskip fun inner => ⟨Nat.lt_succ_of_lt hless, ?_⟩⟩
    show valueAt inner 45 (text ++ rest) = _
    rw [value_at_minus, hok]
    rfl
  · obtain ⟨b, more, d, htext, hb⟩ := hmagnitude.first
    have hread := hmagnitude rest hend
    rw [htext, List.cons_append] at hread
    obtain ⟨found, hless, hok⟩ := hread
    rw [htext] at hskip
    refine ⟨.number found, rfl, finds_value hskip fun inner => ⟨hless, ?_⟩⟩
    show valueAt inner b (more ++ rest) = _
    rw [value_at_digit hb, hok]
  · rw [hnull] at hskip
    exact ⟨.null, rfl, finds_word depth .null hskip⟩

end

end EngineLink.Json
