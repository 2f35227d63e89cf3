import EngineLink.Proofs.Json.Suffixes
import EngineLink.Proofs.Text.IllFormed

/-!
# Null characters in JSON

A null character is in a value that was read only if the text has the escape for it: a control
character may not stand in a string as it is, and no other escape makes one. Read `HasNull` first;
`null_escape_of_read` is the result.
-/

namespace EngineLink.Json

/-- The bytes of the escape for the null character. -/
def nullEscape : List UInt8 :=
  Text.utf8 "\\u0000"

/-! ## Strings -/

/-- A hexadecimal digit is worth less than sixteen, and nothing only if it is the zero. -/
theorem hex_value_cases {c : Char} {n : Nat} (h : Text.hexValue? c = some n) :
    n < 16 ∧ (n = 0 → c.toNat = 48) := by
  rw [Text.hexValue?] at h
  split at h
  · have := Option.some.inj h
    omega
  · split at h
    · have := Option.some.inj h
      omega
    · split at h
      · have := Option.some.inj h
        omega
      · cases h

/-- Only the digit zero is worth nothing. -/
theorem eq_of_hex_value_zero {b : UInt8} (h : Text.hexValue? (Char.ofNat b.toNat) = some 0) :
    b = 48 := by
  have hbyte : b.toNat < 256 := b.toNat_lt
  have hzero := (hex_value_cases h).2 rfl
  rw [Text.to_nat_of_valid (.inl (by omega))] at hzero
  exact UInt8.toNat_inj.1 hzero

/-- The code of four digits is that of a character or of a surrogate, and it is zero only if the
digits are. -/
theorem four_hex_cases {a b c d : UInt8} {n : Nat} (h : fourHex? a b c d = some n) :
    n < 0x10000 ∧ (n = 0 → [a, b, c, d] = [48, 48, 48, 48]) := by
  simp only [fourHex?, Option.bind_eq_bind, Option.bind_eq_some_iff, Option.pure_def,
    Option.some.injEq] at h
  obtain ⟨first, ha, second, hb, third, hc, fourth, hd, hn⟩ := h
  have hfirst := (hex_value_cases ha).1
  have hsecond := (hex_value_cases hb).1
  have hthird := (hex_value_cases hc).1
  have hfourth := (hex_value_cases hd).1
  refine ⟨by omega, fun hzero => ?_⟩
  obtain ⟨rfl, rfl, rfl, rfl⟩ : first = 0 ∧ second = 0 ∧ third = 0 ∧ fourth = 0 := by omega
  rw [eq_of_hex_value_zero ha, eq_of_hex_value_zero hb, eq_of_hex_value_zero hc,
    eq_of_hex_value_zero hd]

/-- A code of four hexadecimal digits has at most sixteen bits, and only four zeros are the code
zero. -/
theorem hex_code_cases {s : List UInt8} {code : Found Nat s} (h : hexCode s = .ok code) :
    code.value < 0x10000 ∧ (code.value = 0 → [48, 48, 48, 48] <+: s) := by
  unfold hexCode at h
  split at h
  · next a b c d rest =>
      split at h
      · next n hdigits =>
          cases h
          obtain ⟨hbound, hzero⟩ := four_hex_cases hdigits
          exact ⟨hbound, fun hn => hzero hn ▸ List.prefix_append [a, b, c, d] rest⟩
      · cases h
  · cases h

/-- A surrogate pair is no null character. -/
theorem low_surrogate_ne_null {high : Nat} {s : List UInt8} {c : Found Char s}
    (hhigh : 0xD800 ≤ high ∧ high ≤ 0xDBFF) (h : lowSurrogate high s = .ok c) :
    c.value ≠ '\x00' := by
  obtain ⟨_, _, _, low, -, -, hlow, hvalue, -⟩ := low_surrogate_of_ok h
  intro hnull
  have hvalid : ((high - 0xD800) * 1024 + (low.value - 0xDC00) + 0x10000).isValidChar :=
    .inr (by omega)
  have hnumber := Text.to_nat_of_valid hvalid
  have hzero : '\x00'.toNat = 0 := rfl
  rw [← hvalue, hnull] at hnumber
  omega

/-- Only four zeros are the code of a null character. -/
theorem code_escape_null {s : List UInt8} {c : Found Char s} (h : codeEscape s = .ok c)
    (hnull : c.value = '\x00') : [48, 48, 48, 48] <+: s := by
  unfold codeEscape at h
  split at h
  · cases h
  · next code hcode =>
      obtain ⟨hbound, hzero⟩ := hex_code_cases hcode
      split at h
      · cases h
      · next hlow =>
          split at h
          · next hplain =>
              -- no surrogate, so the number of the character is the code
              rw [← Except.ok.inj h] at hnull
              have hnumber := Text.to_nat_of_valid (n := code.value) (by
                show _ ∨ _
                omega)
              have hcode : Char.ofNat code.value = '\x00' := hnull
              rw [hcode] at hnumber
              exact hzero hnumber.symm
          · next hhigh =>
              have hrange : 0xD800 ≤ code.value ∧ code.value ≤ 0xDBFF := by omega
              split at h
              · cases h
              · next c hc =>
                  have hnot := low_surrogate_ne_null hrange hc
                  rw [← Except.ok.inj h] at hnull
                  exact absurd hnull hnot

/-- No escape of one letter stands for the null character. -/
theorem simple_escape_ne_null {b : UInt8} {c : Char} (h : simpleEscape? b = some c) :
    c ≠ '\x00' := by
  unfold simpleEscape? at h
  split_ifs at h <;> cases h <;> decide

/-- Only one escape stands for the null character. -/
theorem escape_null {s : List UInt8} {c : Found Char s} (h : escape s = .ok c)
    (hnull : c.value = '\x00') : [117, 48, 48, 48, 48] <+: s := by
  unfold escape at h
  split at h
  · cases h
  · next b rest =>
      split at h
      · next hcode =>
          split at h
          · cases h
          · next c hc =>
              cases h
              rw [hcode]
              exact List.cons_prefix_cons.2 ⟨rfl, code_escape_null hc hnull⟩
      · split at h
        · next c hc =>
            cases h
            exact absurd hnull (simple_escape_ne_null hc)
        · cases h

/-- Only the null character has a zero byte. -/
theorem eq_null_of_zero_mem {c : Char} (hbyte : 0 ∈ String.utf8EncodeChar c) : c = '\x00' := by
  by_cases hplain : c.toNat < 128
  · rw [Text.utf8_of_ascii hplain, List.mem_singleton] at hbyte
    have hnumber := congrArg UInt8.toNat hbyte
    rw [UInt8.toNat_ofNat', Nat.mod_eq_of_lt (by omega)] at hnumber
    rw [← Char.ofNat_toNat c, ← hnumber]
    rfl
  · have hlarge := Text.le_of_mem_utf8 (Nat.le_of_not_lt hplain) hbyte
    exact absurd hlarge (by decide)

/-- The bytes of a string have a zero only for an escape of the null character. -/
theorem string_bytes_zero {s : List UInt8} {bytes : Found (List UInt8) s}
    (h : stringBytes s = .ok bytes) (hzero : 0 ∈ bytes.value) : nullEscape <:+: s := by
  fun_induction stringBytes s with
  | case1 => cases h
  | case2 rest =>
      cases h
      cases hzero
  | case3 | case4 => cases h
  | case5 rest c hc _ later hlater _ ih =>
      cases h
      rcases List.mem_append.1 hzero with hescaped | hbehind
      · rw [Text.utf8Chars, List.flatMap_singleton] at hescaped
        have hprefix := escape_null hc (eq_null_of_zero_mem hescaped)
        exact (List.cons_prefix_cons.2 ⟨rfl, hprefix⟩).isInfix
      · have hescape := (leaves_end_escape rest c hc).trans (List.suffix_cons 92 rest)
        exact (ih hlater hbehind).trans hescape.isInfix
  | case6 | case7 => cases h
  | case8 b rest _ _ hprinted later hlater ih =>
      cases h
      rcases List.mem_cons.1 hzero with rfl | hbehind
      · -- a zero is a control character, which may not stand as it is
        exact absurd (by decide) hprinted
      · exact (ih hlater hbehind).trans (List.suffix_cons b rest).isInfix

/-- A string has a null character only for an escape of it. -/
theorem read_string_null {s : List UInt8} {text : Found String s} (h : readString s = .ok text)
    (hnull : '\x00' ∈ text.value.toList) : nullEscape <:+: s := by
  unfold readString at h
  split at h
  · cases h
  · next bytes hbytes =>
      rw [← Except.ok.inj h] at hnull
      have hread : '\x00' ∈ Text.lossyChars bytes.value := by
        rwa [Text.lossy, String.toList_ofList] at hnull
      have hbyte : [0] <:+: bytes.value := Text.mem_of_mem_lossy_chars (by decide) hread
      exact string_bytes_zero hbytes (hbyte.subset List.mem_cons_self)

/-! ## Values -/

/-- A null character is in a string of a value, or in the name of a member. -/
inductive HasNull : Json → Prop
  | string {text : String} (h : '\x00' ∈ text.toList) : HasNull (.string text)
  | item {items : List Json} {v : Json} (hv : v ∈ items) (h : HasNull v) : HasNull (.array items)
  | name {members : List (String × Json)} {m : String × Json} (hm : m ∈ members)
      (h : '\x00' ∈ m.1.toList) : HasNull (.object members)
  | member {members : List (String × Json)} {m : String × Json} (hm : m ∈ members)
      (h : HasNull m.2) : HasNull (.object members)

/-- A value has the null characters of its members. -/
theorem HasNull.of_member {v m : Json} {name : String} (h : v.member? name = some m)
    (hnull : HasNull m) : HasNull v := by
  unfold member? at h
  split at h
  · next members =>
      obtain ⟨front, back, hmembers, -⟩ := List.lookup_eq_some_iff.1 h
      have hmem : (name, m) ∈ members := by
        rw [← List.mem_reverse, hmembers]
        exact List.mem_append_right front List.mem_cons_self
      exact .member hmem hnull
  · cases h

/-- What a reader finds has a null character only for an escape of it. -/
def NullEscaped {s : List UInt8} (result : Except Failure (Found Json s)) : Prop :=
  ∀ found, result = .ok found → HasNull found.value → nullEscape <:+: s

/-- A word stands for the value it is read as. -/
theorem ident_value {result : Json} {letters s t : List UInt8} {h : t.length < s.length}
    {found : Found Json s} (hread : ident result letters s t h = .ok found) :
    found.value = result := by
  fun_induction ident result letters s t h with
  | case1 =>
      cases hread
      rfl
  | case2 => cases hread
  | case3 _ _ _ _ _ ih => exact ih hread
  | case4 => cases hread

section

variable {item : ValueReader} (hitem : ∀ s, NullEscaped (item s))

include hitem

/-- A member of an object has a null character only for an escape of it, in its name or its
value. -/
theorem member_null {s : List UInt8} {found : Found (String × Json) s}
    (h : member item s = .ok found)
    (hnull : '\x00' ∈ found.value.1.toList ∨ HasNull found.value.2) : nullEscape <:+: s := by
  unfold member at h
  split at h
  · cases h
  · next name hname =>
      split at h
      · cases h
      · next c hc =>
          split at h
          · cases h
          · next v hv =>
              cases h
              rcases hnull with hnamed | hvalue
              · exact read_string_null hname hnamed
              · have hmiddle := (leaves_end_colon name.rest c hc).trans
                  (leaves_end_read_string s name hname)
                exact (hitem c.rest v hv hvalue).trans hmiddle.isInfix

variable (hend : ∀ s, LeavesEnd (item s))

include hend

/-- A null character in an item has its escape among the bytes of the items. -/
theorem items_null {first : Bool} {s : List UInt8} {found : Found (List Json) s}
    (h : items item first s = .ok found) {v : Json} (hv : v ∈ found.value) (hnull : HasNull v) :
    nullEscape <:+: s := by
  fun_induction items item first s with
  | case1 => cases h
  | case2 =>
      cases h
      cases hv
  | case3 | case4 | case5 => cases h
  | case6 first s b rest hs _ _ t ht _ w hw _ later hlater ih =>
      cases h
      have hstart : t <:+ s := (to_item_suffix ht).trans (hs ▸ skip_space_suffix s)
      rcases List.mem_cons.1 hv with rfl | hbehind
      · exact (hitem t w hw hnull).trans hstart.isInfix
      · have hrest := (hend t w hw).trans hstart
        exact (ih hlater hbehind).trans hrest.isInfix

/-- A null character in the name or the value of a member has its escape among the bytes of the
members. -/
theorem members_null {first : Bool} {s : List UInt8} {found : Found (List (String × Json)) s}
    (h : members item first s = .ok found) {m : String × Json} (hm : m ∈ found.value)
    (hnull : '\x00' ∈ m.1.toList ∨ HasNull m.2) : nullEscape <:+: s := by
  fun_induction members item first s with
  | case1 => cases h
  | case2 =>
      cases h
      cases hm
  | case3 | case4 | case5 => cases h
  | case6 first s b rest hs _ _ t ht _ w hw _ later hlater ih =>
      cases h
      have hstart : t <:+ s := (to_name_suffix ht).trans (hs ▸ skip_space_suffix s)
      rcases List.mem_cons.1 hm with rfl | hbehind
      · exact (member_null hitem hw hnull).trans hstart.isInfix
      · have hrest := (leaves_end_member hend t w hw).trans hstart
        exact (ih hlater hbehind).trans hrest.isInfix

end

/-- Where nothing is found, no null character is. -/
theorem null_escaped_error {s : List UInt8} (e : Failure) :
    NullEscaped (.error e : Except Failure (Found Json s)) := by
  intro found h
  cases h

/-- At its first byte a value has a null character only for an escape of it, if what stands inside
has. -/
theorem null_escaped_value_at {inner : Option ValueReader}
    (hend : ∀ item, inner = some item → ∀ s, LeavesEnd (item s))
    (hinner : ∀ item, inner = some item → ∀ s, NullEscaped (item s)) (b : UInt8)
    (rest : List UInt8) : NullEscaped (valueAt inner b rest) := by
  have hbehind : rest <:+: b :: rest := (List.suffix_cons b rest).isInfix
  intro found h hnull
  cases found_at_of_value_at h with
  | word result letters _ hscalar hread =>
      rw [ident_value hread] at hnull
      rcases hscalar with rfl | ⟨flag, rfl⟩
      · cases hnull
      · cases hnull
  | signed | unsigned => cases hnull
  | string text hread =>
      cases hnull with
      | string hmem => exact (read_string_null hread hmem).trans hbehind
  | array item hitem found hread =>
      cases hnull with
      | item hv hinside =>
          exact (items_null (hinner item hitem) (hend item hitem) hread hv hinside).trans hbehind
  | object item hitem found hread =>
      have hmembers {m : String × Json} (hm : m ∈ found.value)
          (hmember : '\x00' ∈ m.1.toList ∨ HasNull m.2) : nullEscape <:+: b :: rest :=
        (members_null (hinner item hitem) (hend item hitem) hread hm hmember).trans hbehind
      cases hnull with
      | name hm hname => exact hmembers hm (.inl hname)
      | member hm hinside => exact hmembers hm (.inr hinside)

/-- A value has a null character only for an escape of it, if what stands inside has. -/
theorem null_escaped_value_with {inner : Option ValueReader}
    (hend : ∀ item, inner = some item → ∀ s, LeavesEnd (item s))
    (hinner : ∀ item, inner = some item → ∀ s, NullEscaped (item s)) (s : List UInt8) :
    NullEscaped (valueWith inner s) := by
  unfold valueWith
  split
  · exact null_escaped_error _
  · next b rest hs =>
      split
      · exact null_escaped_error _
      · next v hv =>
          rintro _ ⟨⟩ hnull
          have hspace : b :: rest <:+ s := hs ▸ skip_space_suffix s
          exact (null_escaped_value_at hend hinner b rest v hv hnull).trans hspace.isInfix

/-- However deep a null character is in a value, it was read from an escape. -/
theorem null_escaped_value (depth : Nat) (s : List UInt8) : NullEscaped (value depth s) := by
  induction depth generalizing s with
  | zero =>
      refine null_escaped_value_with ?_ ?_ s
      · rintro item ⟨⟩
      · rintro item ⟨⟩
  | succ depth ih =>
      refine null_escaped_value_with ?_ ?_ s
      · rintro item ⟨⟩
        exact leaves_end_value depth
      · rintro item ⟨⟩
        exact ih

/-- A text that is read as a value with a null character has the escape for it. -/
theorem null_escape_of_read {text : String} {v : Json} (h : read text = .ok v)
    (hnull : HasNull v) : nullEscape <:+: Text.utf8 text := by
  unfold read readBytes at h
  dsimp only at h
  split at h
  · cases h
  · next found hfound =>
      split at h
      · rw [← Except.ok.inj h] at hnull
        exact null_escaped_value maxDepth _ found hfound hnull
      · cases h

end EngineLink.Json
