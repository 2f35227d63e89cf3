import EngineLink.Text.Utf8
import Mathlib.Tactic.IntervalCases

/-!
# Reading UTF-8 back

Every text reads back from its UTF-8 bytes. Read `first_char_utf8` first: whatever follows the
bytes of a character, the reader finds the character and stops behind them.
-/

namespace EngineLink.Text

/-! ## The first byte of a character -/

/-- A byte below 128 is a character by itself. -/
theorem Lead.of_ascii {n : Nat} (h : n < 128) : Lead.of (.ofNat n) = .single := by
  have hbyte : UInt8.ofNat n < 0x80 := by
    rw [UInt8.lt_iff_toNat_lt, UInt8.toNat_ofNat']
    exact Nat.lt_of_le_of_lt (Nat.mod_le _ _) h
  rw [Lead.of, if_pos hbyte]

/-- A byte from 194 to 223 leads a character of two bytes. -/
theorem Lead.of_two {n : Nat} (hlow : 2 ≤ n) (hhigh : n < 32) :
    Lead.of (.ofNat (n + 192)) = .sequence n 1 0x80 0xBF := by
  interval_cases n <;> rfl

/-- Behind the first lead the byte that follows excludes overlong forms, behind the fourteenth the
surrogates. -/
theorem Lead.of_three {n : Nat} (h : n < 16) : Lead.of (.ofNat (n + 224)) =
    .sequence n 2 (if n = 0 then 0xA0 else 0x80) (if n = 13 then 0x9F else 0xBF) := by
  interval_cases n <;> rfl

/-- Behind the first lead the byte that follows excludes overlong forms, behind the fifth the
numbers above the last character. -/
theorem Lead.of_four {n : Nat} (h : n < 5) : Lead.of (.ofNat (n + 240)) =
    .sequence n 3 (if n = 0 then 0x90 else 0x80) (if n = 4 then 0x8F else 0xBF) := by
  interval_cases n <;> rfl

/-! ## Characters -/

/-- A byte that continues a character adds its six bits. -/
theorem continue_char_next {bits more n : Nat} {low high : UInt8} (rest : List UInt8)
    (hlow : low.toNat ≤ n % 64 + 128) (hhigh : n % 64 + 128 ≤ high.toNat) :
    continueChar bits (more + 1) low high (.ofNat (n % 64 + 128) :: rest) =
      continueChar (bits * 64 + n % 64) more 0x80 0xBF rest := by
  have hbyte : (UInt8.ofNat (n % 64 + 128)).toNat = n % 64 + 128 := by
    rw [UInt8.toNat_ofNat']
    omega
  have hbits : (n % 64 + 128) % 64 = n % 64 := by omega
  rw [continueChar, if_pos, hbyte, hbits]
  rw [UInt8.le_iff_toNat_le, UInt8.le_iff_toNat_le, hbyte]
  exact ⟨hlow, hhigh⟩

/-- A byte that continues a character, where it need not exclude anything. -/
theorem continue_char_next_of_any (bits more n : Nat) (rest : List UInt8) :
    continueChar bits (more + 1) 0x80 0xBF (.ofNat (n % 64 + 128) :: rest) =
      continueChar (bits * 64 + n % 64) more 0x80 0xBF rest := by
  refine continue_char_next rest ?_ ?_
  · show 128 ≤ _
    omega
  · show _ ≤ 191
    omega

/-- The bytes of a character by its number. -/
theorem utf8_encode_char_eq (c : Char) : String.utf8EncodeChar c =
    if c.toNat ≤ 0x7F then [.ofNat c.toNat]
    else if c.toNat ≤ 0x7FF then
      [.ofNat (c.toNat / 64 % 32 + 192), .ofNat (c.toNat % 64 + 128)]
    else if c.toNat ≤ 0xFFFF then
      [.ofNat (c.toNat / 4096 % 16 + 224), .ofNat (c.toNat / 64 % 64 + 128),
        .ofNat (c.toNat % 64 + 128)]
    else
      [.ofNat (c.toNat / 262144 % 8 + 240), .ofNat (c.toNat / 4096 % 64 + 128),
        .ofNat (c.toNat / 64 % 64 + 128), .ofNat (c.toNat % 64 + 128)] := rfl

/-- The bytes of a character are read as the character, whatever follows them. -/
theorem first_char_utf8 (c : Char) (rest : List UInt8) :
    ∃ b more, String.utf8EncodeChar c = b :: more ∧ firstChar b (more ++ rest) = (c, rest) := by
  have hvalid : c.toNat < 0xD800 ∨ 0xDFFF < c.toNat ∧ c.toNat < 0x110000 := c.valid
  have hchar : Char.ofNat c.toNat = c := Char.ofNat_toNat c
  rw [utf8_encode_char_eq]
  generalize c.toNat = v at hvalid hchar
  rw [← hchar]
  -- one case for each number of bytes; behind the lead every byte adds six bits
  split
  · refine ⟨_, _, rfl, ?_⟩
    rw [firstChar, Lead.of_ascii (by omega)]
    show (Char.ofNat (UInt8.ofNat v).toNat, rest) = _
    rw [UInt8.toNat_ofNat', Nat.mod_eq_of_lt (by omega)]
  · split
    · refine ⟨_, _, rfl, ?_⟩
      rw [firstChar, Lead.of_two (by omega) (by omega)]
      show continueChar _ 1 _ _ (_ :: rest) = _
      rw [continue_char_next_of_any, continueChar]
      congr 2
      omega
    · split
      · refine ⟨_, _, rfl, ?_⟩
        rw [firstChar, Lead.of_three (by omega)]
        show continueChar _ 2 _ _ (_ :: _ :: rest) = _
        rw [continue_char_next _ ?_ ?_, continue_char_next_of_any, continueChar]
        · congr 2
          omega
        · split
          · show 160 ≤ _
            omega
          · show 128 ≤ _
            omega
        · split
          · show _ ≤ 159
            omega
          · show _ ≤ 191
            omega
      · refine ⟨_, _, rfl, ?_⟩
        rw [firstChar, Lead.of_four (by omega)]
        show continueChar _ 3 _ _ (_ :: _ :: _ :: rest) = _
        rw [continue_char_next _ ?_ ?_, continue_char_next_of_any, continue_char_next_of_any,
          continueChar]
        · congr 2
          omega
        · split
          · show 144 ≤ _
            omega
          · show 128 ≤ _
            omega
        · split
          · show _ ≤ 143
            omega
          · show _ ≤ 191
            omega

/-! ## Texts -/

/-- A character in front of any bytes is read first. -/
theorem lossy_chars_utf8_encode (c : Char) (rest : List UInt8) :
    lossyChars (String.utf8EncodeChar c ++ rest) = c :: lossyChars rest := by
  obtain ⟨b, more, hbytes, hfirst⟩ := first_char_utf8 c rest
  rw [hbytes, List.cons_append, lossyChars, hfirst]

/-- Characters in front of any bytes are read first. -/
theorem lossy_chars_utf8_chars (cs : List Char) (rest : List UInt8) :
    lossyChars (utf8Chars cs ++ rest) = cs ++ lossyChars rest := by
  induction cs with
  | nil => rfl
  | cons c cs ih =>
      show lossyChars ((String.utf8EncodeChar c ++ utf8Chars cs) ++ rest) = _
      rw [List.append_assoc, lossy_chars_utf8_encode, ih, List.cons_append]

/-- Characters read back from their bytes. -/
theorem lossy_chars_of_utf8_chars (cs : List Char) : lossyChars (utf8Chars cs) = cs := by
  have := lossy_chars_utf8_chars cs []
  rwa [List.append_nil, lossyChars, List.append_nil] at this

/-- Every text reads back from its bytes. -/
theorem lossy_utf8 (s : String) : lossy (utf8 s) = s := by
  rw [lossy, utf8, lossy_chars_of_utf8_chars, String.ofList_toList]

/-- The bytes of characters behind others stand behind theirs. -/
theorem utf8_chars_append (first second : List Char) :
    utf8Chars (first ++ second) = utf8Chars first ++ utf8Chars second := by
  simp [utf8Chars]

/-- A character of one byte. -/
theorem utf8_of_ascii {c : Char} (h : c.toNat < 128) :
    String.utf8EncodeChar c = [.ofNat c.toNat] := by
  rw [utf8_encode_char_eq, if_pos (Nat.le_of_lt_succ h)]

/-- No byte of a longer character is that of one of one byte. -/
theorem le_of_mem_utf8 {c : Char} (h : 128 ≤ c.toNat) {b : UInt8}
    (hb : b ∈ String.utf8EncodeChar c) : 128 ≤ b.toNat := by
  have hbyte {n k : Nat} (hk : 128 ≤ k) (hn : n + k < 256) :
      128 ≤ (UInt8.ofNat (n + k)).toNat := by
    rw [UInt8.toNat_ofNat', Nat.mod_eq_of_lt hn]
    omega
  rw [utf8_encode_char_eq, if_neg (by omega)] at hb
  split at hb
  · simp only [List.mem_cons, List.not_mem_nil, or_false] at hb
    rcases hb with rfl | rfl <;> exact hbyte (by omega) (by omega)
  · split at hb
    · simp only [List.mem_cons, List.not_mem_nil, or_false] at hb
      rcases hb with rfl | rfl | rfl <;> exact hbyte (by omega) (by omega)
    · simp only [List.mem_cons, List.not_mem_nil, or_false] at hb
      rcases hb with rfl | rfl | rfl | rfl <;> exact hbyte (by omega) (by omega)

end EngineLink.Text
