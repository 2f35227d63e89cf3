import EngineLink.Json.Printer
import EngineLink.Json.Reader
import EngineLink.Proofs.Text.RoundTrip

/-!
# Reading JSON strings

The characters of a string that are no escapes are read as they are, and an escape as the character
it stands for. The printer writes a character as itself, as an escape of its own or as its code.

Read `Finds` first, then `escaped_cases`.
-/

namespace EngineLink.Json

/-- A reader found a value and stopped in front of these bytes. -/
def Finds {α : Type} {s : List UInt8} (result : Except Failure (Found α s)) (value : α)
    (rest : List UInt8) : Prop :=
  ∃ h, result = .ok ⟨value, rest, h⟩

/-! ## Escapes -/

/-- An escape of one letter is read as its character. -/
theorem finds_escape_simple {b : UInt8} {c : Char} (h : simpleEscape? b = some c)
    (rest : List UInt8) : Finds (escape (b :: rest)) c rest := by
  have hcode : b ≠ 117 := by
    rintro rfl
    cases h
  refine ⟨by simp, ?_⟩
  rw [escape, if_neg hcode, h]

/-- The code of a character is read as the character. -/
theorem finds_escape_code {n : Nat} {a b c d : UInt8} (hn : n < 0xD800 ∨ 0xDFFF < n)
    (h : fourHex? a b c d = some n) (rest : List UInt8) :
    Finds (escape (117 :: a :: b :: c :: d :: rest)) (Char.ofNat n) rest := by
  refine ⟨by simp only [List.length_cons]; omega, ?_⟩
  rw [escape, if_pos rfl, codeEscape, hexCode, h]
  have hlow : ¬(0xDC00 ≤ n ∧ n ≤ 0xDFFF) := by omega
  have hpair : n < 0xD800 ∨ 0xDBFF < n := by omega
  simp only [hlow, hpair, if_true, if_false]
  rfl

/-- The two digits of a control character stand for its number. -/
theorem four_hex_of_control {n : Nat} (h : n < 32) :
    ∃ a b, Text.utf8Chars (Text.hexByte (.ofNat n)) = [a, b] ∧ fourHex? 48 48 a b = some n := by
  interval_cases n <;> exact ⟨_, _, rfl, rfl⟩

/-! ## Strings -/

/-- A byte that stands for itself in a string. -/
def IsPlain (b : UInt8) : Prop :=
  b ≠ 34 ∧ b ≠ 92 ∧ ¬b < 32

/-- Bytes that stand for themselves are read as they are, in front of the rest of the string. -/
theorem finds_plain {bs : List UInt8} (hbs : ∀ b ∈ bs, IsPlain b) {t found rest : List UInt8}
    (h : Finds (stringBytes t) found rest) :
    Finds (stringBytes (bs ++ t)) (bs ++ found) rest := by
  induction bs with
  | nil => exact h
  | cons b bs ih =>
      obtain ⟨hquote, hescape, hcontrol⟩ := hbs b List.mem_cons_self
      obtain ⟨hshorter, hok⟩ := ih fun b hb => hbs b (List.mem_cons_of_mem _ hb)
      show Finds (stringBytes (b :: (bs ++ t))) (b :: (bs ++ found)) rest
      refine ⟨Nat.lt_succ_of_lt hshorter, ?_⟩
      rw [stringBytes, if_neg hquote, if_neg hescape, if_neg hcontrol, hok]

/-- What an escape stands for is read in front of the rest of the string. -/
theorem finds_behind_escape {s t found rest : List UInt8} {c : Char}
    (hescape : Finds (escape s) c t) (h : Finds (stringBytes t) found rest) :
    Finds (stringBytes (92 :: s)) (Text.utf8Chars [c] ++ found) rest := by
  obtain ⟨hfirst, hchar⟩ := hescape
  obtain ⟨hshorter, hok⟩ := h
  refine ⟨by simp only [List.length_cons]; omega, ?_⟩
  rw [stringBytes, if_neg (by decide), if_pos rfl, hchar]
  simp only [hok]

/-- A character that is no quote, no backslash and no control character stands for itself. -/
theorem is_plain_of_mem_utf8 {c : Char} (hquote : c ≠ '"') (hescape : c ≠ '\\')
    (hcontrol : ¬c.toNat < 32) : ∀ b ∈ Text.utf8Chars [c], IsPlain b := by
  intro b hb
  have hmem : b ∈ String.utf8EncodeChar c := by simpa [Text.utf8Chars] using hb
  have hne {d : Char} (hd : c ≠ d) : c.toNat ≠ d.toNat := fun h => hd (Char.toNat_inj.1 h)
  have hquote : c.toNat ≠ 34 := hne hquote
  have hescape : c.toNat ≠ 92 := hne hescape
  have hplain (hn : b.toNat ≠ 34 ∧ b.toNat ≠ 92 ∧ 32 ≤ b.toNat) : IsPlain b := by
    refine ⟨fun h => hn.1 (by rw [h]; rfl), fun h => hn.2.1 (by rw [h]; rfl), ?_⟩
    rw [UInt8.lt_iff_toNat_lt]
    exact Nat.not_lt_of_le hn.2.2
  apply hplain
  by_cases hascii : c.toNat < 128
  · rw [Text.utf8_of_ascii hascii, List.mem_singleton] at hmem
    have hbyte : b.toNat = c.toNat := by
      rw [hmem, UInt8.toNat_ofNat']
      omega
    omega
  · have := Text.le_of_mem_utf8 (Nat.le_of_not_lt hascii) hmem
    omega

/-- A character is escaped to a simple escape, to its code, or stands for itself. -/
theorem escaped_cases (c : Char) :
    (∃ b, Text.utf8Chars (escaped c) = [92, b] ∧ simpleEscape? b = some c) ∨
      (c.toNat < 32 ∧ ∃ a b, Text.utf8Chars (escaped c) = [92, 117, 48, 48, a, b] ∧
        fourHex? 48 48 a b = some c.toNat) ∨
      escaped c = [c] ∧ ∀ b ∈ Text.utf8Chars [c], IsPlain b := by
  have hnumber {n : Nat} (h : c.toNat = n) : some (Char.ofNat n) = some c := by
    rw [← h, Char.ofNat_toNat]
  -- seven characters have an escape of their own; the control characters that are left have a code
  unfold escaped
  split
  · next hc => exact .inl ⟨34, rfl, by rw [hc]; rfl⟩
  · next hquote =>
    split
    · next hc => exact .inl ⟨92, rfl, by rw [hc]; rfl⟩
    · next hescape =>
      split
      · next hc => exact .inl ⟨110, rfl, by rw [hc]; rfl⟩
      · split
        · next hc => exact .inl ⟨114, rfl, by rw [hc]; rfl⟩
        · split
          · next hc => exact .inl ⟨116, rfl, by rw [hc]; rfl⟩
          · split
            · next hc => exact .inl ⟨98, rfl, hnumber hc⟩
            · split
              · next hc => exact .inl ⟨102, rfl, hnumber hc⟩
              · split
                · next hcontrol =>
                    obtain ⟨a, b, hdigits, hcode⟩ := four_hex_of_control hcontrol
                    refine .inr (.inl ⟨hcontrol, a, b, ?_, hcode⟩)
                    rw [controlEscape, ← hdigits]
                    rfl
                · next hcontrol =>
                    exact .inr (.inr ⟨rfl, is_plain_of_mem_utf8 hquote hescape hcontrol⟩)

end EngineLink.Json
