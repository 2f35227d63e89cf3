import EngineLink.Json.Reader

/-!
# What readers leave

Every reader that finds something leaves an end of the bytes that it was given, so that nothing is
read twice and nothing is read that is not in the text. Read `LeavesEnd` first: there is one lemma
for each reader, in the order of the readers, and `FoundAt` tells them apart for a value.
`leaves_end_value` is the result.
-/

namespace EngineLink.Json

/-- A reader that finds something leaves an end of its bytes. -/
def LeavesEnd {α : Type} {s : List UInt8} (result : Except Failure (Found α s)) : Prop :=
  ∀ found, result = .ok found → found.rest <:+ s

section

variable {α β : Type} {s t rest : List UInt8} {b : UInt8}

/-- Where nothing is found, there is nothing to show. -/
theorem leaves_end_error (e : Failure) : LeavesEnd (.error e : Except Failure (Found α s)) := by
  intro found h
  cases h

/-- What is found leaves the end that is told. -/
theorem leaves_end_ok {value : α} {h : rest.length < s.length} (hrest : rest <:+ s) :
    LeavesEnd (.ok ⟨value, rest, h⟩) := by
  rintro _ ⟨⟩
  exact hrest

/-- What is found behind a byte leaves an end of the bytes with it. -/
theorem leaves_end_behind {f : Found α s} (hrest : f.rest <:+ s) (b : UInt8) (g : α → β) :
    LeavesEnd (.ok (f.behind b g)) := by
  rintro _ ⟨⟩
  exact hrest.trans (List.suffix_cons b s)

/-- The value found behind a byte is the one found, put into its form. -/
theorem behind_value (f : Found α s) (b : UInt8) (g : α → β) :
    (f.behind b g).value = g f.value :=
  rfl

/-- An end of an end is an end of the whole. -/
theorem leaves_end_widen {f : Found α s} (hrest : f.rest <:+ s) {h : s.length ≤ t.length}
    (hsuffix : s <:+ t) : LeavesEnd (.ok (f.widen t h)) := by
  rintro _ ⟨⟩
  exact hrest.trans hsuffix

end

/-- Skipping white space leaves an end. -/
theorem skip_space_suffix (s : List UInt8) : skipSpace s <:+ s :=
  List.dropWhile_suffix _

/-! ## Strings -/

/-- A code of four hexadecimal digits leaves an end. -/
theorem leaves_end_hex_code (s : List UInt8) : LeavesEnd (hexCode s) := by
  unfold hexCode
  split
  · next a b c d rest =>
      split
      · exact leaves_end_ok ⟨[a, b, c, d], rfl⟩
      · exact leaves_end_error _
  · exact leaves_end_error _

/-- The second half of a pair stands behind a backslash and a letter, and makes a character of more
than sixteen bits. -/
theorem low_surrogate_of_ok {high : Nat} {s : List UInt8} {c : Found Char s}
    (h : lowSurrogate high s = .ok c) :
    ∃ b d rest, ∃ low : Found Nat rest, s = b :: d :: rest ∧ hexCode rest = .ok low ∧
      (0xDC00 ≤ low.value ∧ low.value ≤ 0xDFFF) ∧
      c.value = Char.ofNat ((high - 0xD800) * 1024 + (low.value - 0xDC00) + 0x10000) ∧
      c.rest = low.rest := by
  unfold lowSurrogate at h
  split at h
  · cases h
  · next b rest =>
      split at h
      · cases h
      · split at h
        · cases h
        · next d rest' =>
            split at h
            · cases h
            · split at h
              · cases h
              · next low hlow =>
                  split at h
                  · next hrange =>
                      obtain rfl := Except.ok.inj h
                      refine ⟨b, d, rest', low, rfl, hlow, hrange, ?_, rfl⟩
                      rw [behind_value, behind_value, id_eq]
                  · cases h

/-- The second half of a pair of codes leaves an end. -/
theorem leaves_end_low_surrogate (high : Nat) (s : List UInt8) :
    LeavesEnd (lowSurrogate high s) := by
  intro c hc
  obtain ⟨b, d, rest, low, rfl, hlow, -, -, hrest⟩ := low_surrogate_of_ok hc
  rw [hrest]
  exact (leaves_end_hex_code rest low hlow).trans ⟨[b, d], rfl⟩

/-- A character given by its code leaves an end. -/
theorem leaves_end_code_escape (s : List UInt8) : LeavesEnd (codeEscape s) := by
  unfold codeEscape
  split
  · exact leaves_end_error _
  · next code hcode =>
      have hrest := leaves_end_hex_code s code hcode
      split
      · exact leaves_end_error _
      · split
        · exact leaves_end_ok hrest
        · split
          · exact leaves_end_error _
          · next c hc =>
              exact leaves_end_widen (leaves_end_low_surrogate _ _ c hc) hrest

/-- An escape leaves an end. -/
theorem leaves_end_escape (s : List UInt8) : LeavesEnd (escape s) := by
  unfold escape
  split
  · exact leaves_end_error _
  · next b rest =>
      split
      · split
        · exact leaves_end_error _
        · next c hc => exact leaves_end_behind (leaves_end_code_escape rest c hc) b id
      · split
        · exact leaves_end_ok (List.suffix_cons b rest)
        · exact leaves_end_error _

/-- The bytes of a string leave an end. -/
theorem leaves_end_string_bytes (s : List UInt8) : LeavesEnd (stringBytes s) := by
  fun_induction stringBytes s with
  | case1 => exact leaves_end_error _
  | case2 rest => exact leaves_end_ok (List.suffix_cons 34 rest)
  | case3 | case4 => exact leaves_end_error _
  | case5 rest c hc _ later hlater _ ih =>
      have hescaped := (ih later hlater).trans (leaves_end_escape rest c hc)
      exact leaves_end_ok (hescaped.trans (List.suffix_cons 92 rest))
  | case6 | case7 => exact leaves_end_error _
  | case8 b rest _ _ _ later hlater ih =>
      exact leaves_end_ok ((ih later hlater).trans (List.suffix_cons b rest))

/-- A string leaves an end. -/
theorem leaves_end_read_string (s : List UInt8) : LeavesEnd (readString s) := by
  unfold readString
  split
  · exact leaves_end_error _
  · next bytes hbytes => exact leaves_end_ok (leaves_end_string_bytes s bytes hbytes)

/-! ## Numbers -/

/-- Skipping digits leaves an end. -/
theorem skip_digits_suffix (s : List UInt8) : skipDigits s <:+ s :=
  List.dropWhile_suffix _

/-- Taking digits leaves an end. -/
theorem take_digits_suffix (significand : Nat) (s : List UInt8) :
    (takeDigits significand s).2.2 <:+ s := by
  fun_induction takeDigits significand s with
  | case1 => exact List.suffix_rfl
  | case2 => exact List.suffix_rfl
  | case3 => exact List.suffix_rfl
  | case4 significand b rest d hd hfits later ih => exact ih.trans (List.suffix_cons b rest)

/-- Behind the digits of an exponent an end is left, whether its value is too large or not. -/
theorem exponent_digits_suffix (value : Nat) (s : List UInt8) :
    match exponentDigits value s with
    | .ok read => read.2 <:+ s
    | .error after => after <:+ s := by
  fun_induction exponentDigits value s with
  | case1 | case2 => exact List.suffix_rfl
  | case3 value b rest => exact List.suffix_cons b rest
  | case4 value b rest d hd hfits ih =>
      split at ih
      · exact ih.trans (List.suffix_cons b rest)
      · exact ih.trans (List.suffix_cons b rest)

/-- An exponent leaves an end. -/
theorem leaves_end_exponent_part (positive : Bool) (significand : Nat) (start : Int)
    (s : List UInt8) : LeavesEnd (exponentPart positive significand start s) := by
  unfold exponentPart
  extract_lets sign sign_le
  have hsign : sign.2 <:+ s := by
    simp only [sign]
    split
    · exact List.suffix_cons _ _
    · exact List.suffix_cons _ _
    · exact List.suffix_rfl
  split
  · exact leaves_end_error _
  · next b rest hs =>
      have hrest : rest <:+ s := (List.suffix_cons b rest).trans (hs ▸ hsign)
      split
      · exact leaves_end_error _
      · next d hdigit =>
          have hdigits := exponent_digits_suffix d rest
          split
          · next n after hd =>
              rw [hd] at hdigits
              split
              · exact leaves_end_error _
              · exact leaves_end_ok (hdigits.trans hrest)
          · next after hd =>
              rw [hd] at hdigits
              split
              · exact leaves_end_error _
              · exact leaves_end_ok (((skip_digits_suffix after).trans hdigits).trans hrest)

section

variable (positive : Bool) (significand : Nat) {s t : List UInt8} (h : t.length < s.length)
  (hsuffix : t <:+ s)

include hsuffix

/-- What stands behind the digits of a fraction leaves an end. -/
theorem leaves_end_after_digits (exponent : Int) :
    LeavesEnd (afterDigits positive significand exponent s t h) := by
  unfold afterDigits
  split
  · next b rest _ =>
      split
      · split
        · exact leaves_end_error _
        · next x hx =>
            exact leaves_end_widen (leaves_end_exponent_part _ _ _ _ x hx)
              ((List.suffix_cons b rest).trans hsuffix)
      · split
        · exact leaves_end_error _
        · exact leaves_end_ok hsuffix
  · split
    · exact leaves_end_error _
    · exact leaves_end_ok hsuffix

/-- A fraction leaves an end. -/
theorem leaves_end_fraction_part (start : Int) :
    LeavesEnd (fractionPart positive significand start s t h) := by
  unfold fractionPart
  extract_lets taken le exponent
  have htaken : taken.2.2 <:+ s := (take_digits_suffix significand t).trans hsuffix
  split
  · next ht =>
      split
      · exact leaves_end_error _
      · exact leaves_end_after_digits _ _ _ (ht ▸ htaken) _
  · next b rest ht =>
      rw [ht] at htaken
      split
      · exact leaves_end_after_digits _ _ _ ((skip_digits_suffix _).trans htaken) _
      · split
        · exact leaves_end_error _
        · exact leaves_end_after_digits _ _ _ htaken _

/-- What stands behind whole digits leaves an end. -/
theorem leaves_end_after_whole : LeavesEnd (afterWhole positive significand s t h) := by
  unfold afterWhole
  split
  · next b rest _ =>
      split
      · exact leaves_end_fraction_part _ _ _ ((List.suffix_cons b rest).trans hsuffix) _
      · split
        · exact leaves_end_after_digits _ _ _ hsuffix _
        · exact leaves_end_ok hsuffix
  · exact leaves_end_ok hsuffix

/-- Whole digits beyond the significand leave an end. -/
theorem leaves_end_long_whole : LeavesEnd (longWhole positive significand s t h) := by
  unfold longWhole
  extract_lets after le exponent
  have hafter : after <:+ s := (skip_digits_suffix t).trans hsuffix
  clear_value le exponent after
  cases after with
  | nil => exact leaves_end_after_digits _ _ _ hafter _
  | cons b rest =>
      dsimp only
      split
      · exact leaves_end_fraction_part _ _ _ ((List.suffix_cons b rest).trans hafter) _
      · exact leaves_end_after_digits _ _ _ hafter _

end

/-- What stands behind a zero in front leaves an end. -/
theorem leaves_end_after_zero (positive : Bool) (b : UInt8) (rest : List UInt8) :
    LeavesEnd (afterZero positive b rest) := by
  unfold afterZero
  split
  · next c more =>
      split
      · exact leaves_end_error _
      · exact leaves_end_after_whole _ _ _ (List.suffix_cons b (c :: more))
  · exact leaves_end_after_whole _ _ _ (List.suffix_cons b [])

/-- What stands behind another digit in front leaves an end. -/
theorem leaves_end_after_digit (positive : Bool) (d : Nat) (b : UInt8) (rest : List UInt8) :
    LeavesEnd (afterDigit positive d b rest) := by
  unfold afterDigit
  extract_lets taken le
  have htaken : taken.2.2 <:+ b :: rest :=
    (take_digits_suffix d rest).trans (List.suffix_cons b rest)
  split
  · exact leaves_end_after_whole _ _ _ (List.nil_suffix)
  · next c more ht =>
      rw [ht] at htaken
      extract_lets shorter
      split
      · exact leaves_end_long_whole _ _ _ htaken
      · exact leaves_end_after_whole _ _ _ htaken

/-- A number leaves an end. -/
theorem leaves_end_read_number (positive : Bool) (s : List UInt8) :
    LeavesEnd (readNumber positive s) := by
  unfold readNumber
  split
  · exact leaves_end_error _
  · split
    · exact leaves_end_error _
    · split
      · exact leaves_end_after_zero _ _ _
      · exact leaves_end_after_digit _ _ _ _

/-! ## Values -/

/-- A word leaves an end. -/
theorem leaves_end_ident (result : Json) (letters s t : List UInt8) (h : t.length < s.length)
    (hsuffix : t <:+ s) : LeavesEnd (ident result letters s t h) := by
  fun_induction ident result letters s t h with
  | case1 => exact leaves_end_ok hsuffix
  | case2 => exact leaves_end_error _
  | case3 letters s b rest h ih => exact ih ((List.suffix_cons b rest).trans hsuffix)
  | case4 => exact leaves_end_error _

/-- The step to an item leaves an end. -/
theorem to_item_suffix {first : Bool} {b : UInt8} {rest t : List UInt8}
    (h : toItem first b rest = .ok t) : t <:+ b :: rest := by
  unfold toItem at h
  split at h
  · obtain rfl := Except.ok.inj h
    exact List.suffix_rfl
  · split at h
    · split at h
      · cases h
      · next c more heq =>
          split at h
          · cases h
          · rw [← Except.ok.inj h, ← heq]
            exact (skip_space_suffix rest).trans (List.suffix_cons b rest)
    · cases h

/-- The step to the name of a member leaves an end. -/
theorem to_name_suffix {first : Bool} {b : UInt8} {rest t : List UInt8}
    (h : toName first b rest = .ok t) : t <:+ b :: rest := by
  unfold toName at h
  split at h
  · split at h
    · rw [← Except.ok.inj h]
      exact List.suffix_cons b rest
    · cases h
  · split at h
    · split at h
      · cases h
      · next c more heq =>
          have hmore : c :: more <:+ b :: rest :=
            heq ▸ (skip_space_suffix rest).trans (List.suffix_cons b rest)
          split at h
          · rw [← Except.ok.inj h]
            exact (List.suffix_cons c more).trans hmore
          · split at h
            · cases h
            · cases h
    · cases h

/-- A colon leaves an end. -/
theorem leaves_end_colon (s : List UInt8) : LeavesEnd (colon s) := by
  unfold colon
  split
  · exact leaves_end_error _
  · next b rest hs =>
      split
      · exact leaves_end_ok ((List.suffix_cons b rest).trans (hs ▸ skip_space_suffix s))
      · exact leaves_end_error _

section

variable {item : ValueReader} (hitem : ∀ s, LeavesEnd (item s))

include hitem

/-- Items leave an end if each of them does. -/
theorem leaves_end_items (first : Bool) (s : List UInt8) : LeavesEnd (items item first s) := by
  fun_induction items item first s with
  | case1 => exact leaves_end_error _
  | case2 first s rest hs =>
      exact leaves_end_ok ((List.suffix_cons 93 rest).trans (hs ▸ skip_space_suffix s))
  | case3 | case4 | case5 => exact leaves_end_error _
  | case6 first s b rest hs _ _ t ht _ v hv _ later hlater ih =>
      have hstart : t <:+ s := (to_item_suffix ht).trans (hs ▸ skip_space_suffix s)
      have hvalue : v.rest <:+ s := (hitem t v hv).trans hstart
      exact leaves_end_ok ((ih later hlater).trans hvalue)

/-- A member leaves an end if its value does. -/
theorem leaves_end_member (s : List UInt8) : LeavesEnd (member item s) := by
  unfold member
  split
  · exact leaves_end_error _
  · next name hname =>
      split
      · exact leaves_end_error _
      · next c hc =>
          split
          · exact leaves_end_error _
          · next v hv =>
              have hnamed := leaves_end_read_string s name hname
              have hmiddle := (leaves_end_colon name.rest c hc).trans hnamed
              exact leaves_end_ok ((hitem c.rest v hv).trans hmiddle)

/-- Members leave an end if their values do. -/
theorem leaves_end_members (first : Bool) (s : List UInt8) : LeavesEnd (members item first s) := by
  fun_induction members item first s with
  | case1 => exact leaves_end_error _
  | case2 first s rest hs =>
      exact leaves_end_ok ((List.suffix_cons 125 rest).trans (hs ▸ skip_space_suffix s))
  | case3 | case4 | case5 => exact leaves_end_error _
  | case6 first s b rest hs _ _ t ht _ m hm _ later hlater ih =>
      have hstart : t <:+ s := (to_name_suffix ht).trans (hs ▸ skip_space_suffix s)
      have hmember : m.rest <:+ s := (leaves_end_member hitem t m hm).trans hstart
      exact leaves_end_ok ((ih later hlater).trans hmember)

end

/-- What a value that starts with a byte is read as, by the reader of its kind. -/
inductive FoundAt (inner : Option ValueReader) (b : UInt8) (rest : List UInt8) :
    Found Json (b :: rest) → Prop
  | word {found : Found Json (b :: rest)} (result : Json) (letters : List UInt8)
      (hshort : rest.length < (b :: rest).length)
      (hscalar : result = .null ∨ ∃ flag, result = .bool flag)
      (hread : ident result letters (b :: rest) rest hshort = .ok found) :
      FoundAt inner b rest found
  | signed (n : Found Number rest) (hread : readNumber false rest = .ok n) :
      FoundAt inner b rest (n.behind b .number)
  | unsigned (n : Found Number (b :: rest)) (hread : readNumber true (b :: rest) = .ok n) :
      FoundAt inner b rest ⟨.number n.value, n.rest, n.shorter⟩
  | string (text : Found String rest) (hread : readString rest = .ok text) :
      FoundAt inner b rest (text.behind b .string)
  | array (item : ValueReader) (hinner : inner = some item) (found : Found (List Json) rest)
      (hread : items item true rest = .ok found) : FoundAt inner b rest (found.behind b .array)
  | object (item : ValueReader) (hinner : inner = some item)
      (found : Found (List (String × Json)) rest) (hread : members item true rest = .ok found) :
      FoundAt inner b rest (found.behind b .object)

/-- What is found at the first byte of a value was read by the reader of its kind. -/
theorem found_at_of_value_at {inner : Option ValueReader} {b : UInt8} {rest : List UInt8}
    {found : Found Json (b :: rest)} (h : valueAt inner b rest = .ok found) :
    FoundAt inner b rest found := by
  unfold valueAt at h
  split at h
  · exact .word .null _ _ (.inl rfl) h
  · split at h
    · exact .word (.bool true) _ _ (.inr ⟨true, rfl⟩) h
    · split at h
      · exact .word (.bool false) _ _ (.inr ⟨false, rfl⟩) h
      · split at h
        · split at h
          · cases h
          · next n hn => exact Except.ok.inj h ▸ .signed n hn
        · split at h
          · split at h
            · cases h
            · next n hn => exact Except.ok.inj h ▸ .unsigned n hn
          · split at h
            · split at h
              · cases h
              · next text htext => exact Except.ok.inj h ▸ .string text htext
            · split at h
              · split at h
                · cases h
                · next item =>
                    split at h
                    · split at h
                      · cases h
                      · next t ht => exact Except.ok.inj h ▸ .array item rfl t ht
                    · split at h
                      · cases h
                      · next t ht => exact Except.ok.inj h ▸ .object item rfl t ht
              · cases h

/-- What stands at the first byte of a value leaves an end if what stands inside does. -/
theorem leaves_end_value_at {inner : Option ValueReader}
    (hinner : ∀ item, inner = some item → ∀ s, LeavesEnd (item s)) (b : UInt8)
    (rest : List UInt8) : LeavesEnd (valueAt inner b rest) := by
  have hbehind : rest <:+ b :: rest := List.suffix_cons b rest
  intro found h
  cases found_at_of_value_at h with
  | word result letters hshort _ hread => exact leaves_end_ident _ _ _ _ hshort hbehind _ hread
  | signed n hread => exact (leaves_end_read_number false rest n hread).trans hbehind
  | unsigned n hread => exact leaves_end_read_number true (b :: rest) n hread
  | string text hread => exact (leaves_end_read_string rest text hread).trans hbehind
  | array item hitem found hread =>
      exact (leaves_end_items (hinner item hitem) true rest found hread).trans hbehind
  | object item hitem found hread =>
      exact (leaves_end_members (hinner item hitem) true rest found hread).trans hbehind

/-- A value leaves an end if what stands inside does. -/
theorem leaves_end_value_with {inner : Option ValueReader}
    (hinner : ∀ item, inner = some item → ∀ s, LeavesEnd (item s)) (s : List UInt8) :
    LeavesEnd (valueWith inner s) := by
  unfold valueWith
  split
  · exact leaves_end_error _
  · next b rest hs =>
      split
      · exact leaves_end_error _
      · next v hv =>
          exact leaves_end_widen (leaves_end_value_at hinner b rest v hv)
            (hs ▸ skip_space_suffix s)

/-- Whatever nests in a value, reading it leaves an end of the bytes. -/
theorem leaves_end_value (depth : Nat) (s : List UInt8) : LeavesEnd (value depth s) := by
  induction depth generalizing s with
  | zero =>
      refine leaves_end_value_with ?_ s
      rintro item ⟨⟩
  | succ depth ih =>
      refine leaves_end_value_with ?_ s
      rintro item ⟨⟩
      exact ih

end EngineLink.Json
