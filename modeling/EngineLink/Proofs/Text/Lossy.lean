import EngineLink.Proofs.Text.RoundTrip
import Mathlib.Data.List.Basic

/-!
# Reading any bytes as UTF-8

Wherever the lossy reading stands, the next character is either the one whose bytes stand there, or
the replacement of a part that is none. Read `ReadsFirst` first: what a character comes to, which
`reads_first` shows of all bytes.
-/

namespace EngineLink.Text

/-! ## Bytes that continue a character -/

/-- A number with the six bits of each byte behind it. -/
def withBits (bits : Nat) (bytes : List UInt8) : Nat :=
  bytes.foldl (fun n b => n * 64 + b.toNat % 64) bits

/-- A byte continues a character. -/
def Continues (b : UInt8) : Prop :=
  128 ≤ b.toNat ∧ b.toNat ≤ 191

/-- Continuing a character takes bytes that continue it, the first of them in the range that is
given, and stops short or has as many as are to follow. -/
theorem continue_char_cases (bits more : Nat) {low high : UInt8} (hlow : 128 ≤ low.toNat)
    (hhigh : high.toNat ≤ 191) (rest : List UInt8) :
    ∃ taken left, rest = taken ++ left ∧
      (∀ b ∈ taken.head?, low.toNat ≤ b.toNat ∧ b.toNat ≤ high.toNat) ∧
      (∀ b ∈ taken, Continues b) ∧
      (taken.length < more ∧ continueChar bits more low high rest = (replacement, left) ∨
        taken.length = more ∧
          continueChar bits more low high rest = (Char.ofNat (withBits bits taken), left)) := by
  fun_induction continueChar bits more low high rest with
  | case1 bits low high rest =>
      exact ⟨[], rest, rfl, fun b hb => absurd hb (Option.not_mem_none b), List.forall_mem_nil _,
        .inr ⟨rfl, rfl⟩⟩
  | case2 bits more low high =>
      exact ⟨[], [], rfl, fun b hb => absurd hb (Option.not_mem_none b), List.forall_mem_nil _,
        .inl ⟨Nat.succ_pos more, rfl⟩⟩
  | case3 bits more low high b rest hfits ih =>
      have hrange : low.toNat ≤ b.toNat ∧ b.toNat ≤ high.toNat :=
        ⟨UInt8.le_iff_toNat_le.1 hfits.1, UInt8.le_iff_toNat_le.1 hfits.2⟩
      have hb : Continues b := ⟨hlow.trans hrange.1, hrange.2.trans hhigh⟩
      obtain ⟨taken, left, hrest, -, hall, hends⟩ := ih (by decide) (by decide)
      refine ⟨b :: taken, left, congrArg (b :: ·) hrest, ?_, List.forall_mem_cons.2 ⟨hb, hall⟩, ?_⟩
      · rintro _ ⟨⟩
        exact hrange
      · rcases hends with ⟨hshort, hread⟩ | ⟨hlength, hread⟩
        · exact .inl ⟨Nat.succ_lt_succ hshort, hread⟩
        · exact .inr ⟨congrArg Nat.succ hlength, hread⟩
  | case4 bits more low high b rest hfits =>
      exact ⟨[], b :: rest, rfl, fun b hb => absurd hb (Option.not_mem_none b),
        List.forall_mem_nil _, .inl ⟨Nat.succ_pos more, rfl⟩⟩

/-! ## The bytes of characters -/

/-- The number of the character of a number. -/
theorem to_nat_of_valid {n : Nat} (h : n.isValidChar) : (Char.ofNat n).toNat = n := by
  rw [Char.ofNat, dif_pos h]
  rfl

/-- A byte by its number. -/
theorem of_nat_eq {n : Nat} {b : UInt8} (h : b.toNat = n) : UInt8.ofNat n = b := by
  rw [← h, UInt8.ofNat_toNat]

section

variable {b c d e : UInt8}

/-- A byte below 128 is its own character. -/
theorem utf8_of_one (hb : b.toNat < 128) :
    String.utf8EncodeChar (Char.ofNat b.toNat) = [b] := by
  have hchar : (Char.ofNat b.toNat).toNat = b.toNat :=
    to_nat_of_valid (.inl (Nat.lt_trans hb (by decide)))
  rw [utf8_of_ascii (hchar.trans_lt hb), hchar, UInt8.ofNat_toNat]

variable (hc : Continues c)

include hc

/-- A lead byte of two and the byte that continues it are the bytes of their character. -/
theorem utf8_of_two (hb : 194 ≤ b.toNat ∧ b.toNat < 224) :
    String.utf8EncodeChar (Char.ofNat (withBits (b.toNat % 32) [c])) = [b, c] := by
  obtain ⟨hlow, hhigh⟩ := hc
  have hbits : withBits (b.toNat % 32) [c] = b.toNat % 32 * 64 + c.toNat % 64 := rfl
  have hchar := to_nat_of_valid (n := b.toNat % 32 * 64 + c.toNat % 64) (.inl (by omega))
  rw [hbits, utf8_encode_char_eq, hchar, if_neg (by omega), if_pos (by omega),
    of_nat_eq (b := b) (by omega), of_nat_eq (b := c) (by omega)]

variable (hd : Continues d)

include hd

/-- Behind the first lead of three bytes the next one is large enough for a longer character, and
behind the fourteenth it is too small for a surrogate. -/
theorem utf8_of_three (hb : 224 ≤ b.toNat ∧ b.toNat < 240)
    (hlong : b.toNat = 224 → 160 ≤ c.toNat) (hplain : b.toNat = 237 → c.toNat ≤ 159) :
    String.utf8EncodeChar (Char.ofNat (withBits (b.toNat % 16) [c, d])) = [b, c, d] := by
  obtain ⟨hlow, hhigh⟩ := hc
  obtain ⟨hlow', hhigh'⟩ := hd
  have hbits : withBits (b.toNat % 16) [c, d] =
      (b.toNat % 16 * 64 + c.toNat % 64) * 64 + d.toNat % 64 := rfl
  have hvalid : ((b.toNat % 16 * 64 + c.toNat % 64) * 64 + d.toNat % 64).isValidChar := by
    show _ ∨ _
    omega
  rw [hbits, utf8_encode_char_eq, to_nat_of_valid hvalid, if_neg (by omega), if_neg (by omega),
    if_pos (by omega), of_nat_eq (b := b) (by omega), of_nat_eq (b := c) (by omega),
    of_nat_eq (b := d) (by omega)]

/-- Behind the first lead of four bytes the next one is large enough for a longer character, and
behind the fifth it is too small for a number above the last character. -/
theorem utf8_of_four (he : Continues e) (hb : 240 ≤ b.toNat ∧ b.toNat < 245)
    (hlong : b.toNat = 240 → 144 ≤ c.toNat) (hlast : b.toNat = 244 → c.toNat ≤ 143) :
    String.utf8EncodeChar (Char.ofNat (withBits (b.toNat % 8) [c, d, e])) = [b, c, d, e] := by
  obtain ⟨hlow, hhigh⟩ := hc
  obtain ⟨hlow', hhigh'⟩ := hd
  obtain ⟨hlow'', hhigh''⟩ := he
  have hbits : withBits (b.toNat % 8) [c, d, e] =
      ((b.toNat % 8 * 64 + c.toNat % 64) * 64 + d.toNat % 64) * 64 + e.toNat % 64 := rfl
  have hvalid : (((b.toNat % 8 * 64 + c.toNat % 64) * 64 + d.toNat % 64) * 64 +
      e.toNat % 64).isValidChar := by
    show _ ∨ _
    omega
  rw [hbits, utf8_encode_char_eq, to_nat_of_valid hvalid, if_neg (by omega), if_neg (by omega),
    if_neg (by omega), of_nat_eq (b := b) (by omega), of_nat_eq (b := c) (by omega),
    of_nat_eq (b := d) (by omega), of_nat_eq (b := e) (by omega)]

end

/-! ## The first character -/

/-- A byte that continues a character, or whose character would be too short or too large, leads
none. -/
theorem Lead.of_ill {b : UInt8} (h : 128 ≤ b.toNat ∧ b.toNat < 194 ∨ 245 ≤ b.toNat) :
    Lead.of b = .ill := by
  have hbyte : b.toNat < 256 := b.toNat_lt
  simp only [Lead.of, UInt8.lt_iff_toNat_lt, ← UInt8.toNat_inj, UInt8.reduceToNat]
  rcases h with hcontinues | hlarge
  · rw [if_neg (by omega), if_pos hcontinues.2]
  · rw [if_neg (by omega), if_neg (by omega), if_neg (by omega), if_neg (by omega),
      if_neg (by omega), if_neg (by omega), if_neg (by omega), if_neg (by omega),
      if_neg (by omega)]

/-- These bytes begin those of a character. -/
def Begins (bytes : List UInt8) : Prop :=
  ∃ c : Char, bytes <+: String.utf8EncodeChar c

/-- The first character is the one whose bytes come first, or the replacement of a part that is
none: of one byte, or of bytes that begin a character. -/
inductive ReadsFirst (b : UInt8) (rest : List UInt8) : Prop
  | char {c : Char} {left : List UInt8} (hread : firstChar b rest = (c, left))
      (hbytes : b :: rest = String.utf8EncodeChar c ++ left)
  | replaced {taken left : List UInt8} (hread : firstChar b rest = (replacement, left))
      (hrest : rest = taken ++ left) (hbegins : taken ≠ [] → Begins (b :: taken))

section

variable {b : UInt8} {bits more : Nat} {low high : UInt8} (hlow : 128 ≤ low.toNat)
  (hrange : low.toNat ≤ high.toNat) (hhigh : high.toNat ≤ 191)
  (hencodes : ∀ taken, taken.length = more → (∀ c ∈ taken, Continues c) →
    (∀ c ∈ taken.head?, low.toNat ≤ c.toNat ∧ c.toNat ≤ high.toNat) →
    String.utf8EncodeChar (Char.ofNat (withBits bits taken)) = b :: taken)

include hlow hrange hhigh hencodes

/-- Too few bytes behind a lead begin a character: the least byte that may follow the lead may also
follow any other one. -/
theorem begins_of_short {taken : List UInt8} (hshort : taken.length < more)
    (hall : ∀ c ∈ taken, Continues c)
    (hfirst : ∀ c ∈ taken.head?, low.toNat ≤ c.toNat ∧ c.toNat ≤ high.toNat) :
    Begins (b :: taken) := by
  have hlength : (taken ++ List.replicate (more - taken.length) low).length = more := by
    rw [List.length_append, List.length_replicate]
    omega
  have hcontinue : ∀ c ∈ taken ++ List.replicate (more - taken.length) low, Continues c := by
    intro c hc
    rcases List.mem_append.1 hc with hc | hc
    · exact hall c hc
    · rw [List.eq_of_mem_replicate hc]
      exact ⟨hlow, hrange.trans hhigh⟩
  have hchar := hencodes _ hlength hcontinue fun c hc => by
    cases taken with
    | nil =>
        rw [List.nil_append] at hc
        rw [List.eq_of_mem_replicate (List.mem_of_mem_head? hc)]
        exact ⟨le_rfl, hrange⟩
    | cons d taken => exact hfirst c hc
  exact ⟨_, List.replicate (more - taken.length) low, hchar.symm⟩

/-- A sequence of bytes is read as its character, or those of them that begin one are replaced, if
all that are long enough are the bytes of a character. -/
theorem reads_first_of_sequence (hlead : Lead.of b = .sequence bits more low high)
    (rest : List UInt8) : ReadsFirst b rest := by
  obtain ⟨taken, left, hrest, hfirst, hall, hends⟩ := continue_char_cases bits more hlow hhigh rest
  have hread : firstChar b rest = continueChar bits more low high rest := by rw [firstChar, hlead]
  rcases hends with ⟨hshort, hstops⟩ | ⟨hlength, hchar⟩
  · have hbegins := begins_of_short hlow hrange hhigh hencodes hshort hall hfirst
    exact .replaced (hread.trans hstops) hrest fun _ => hbegins
  · refine .char (hread.trans hchar) ?_
    rw [hencodes taken hlength hall hfirst, hrest, List.cons_append]

end

section

variable {b : UInt8} (rest : List UInt8)

/-- Behind a lead byte of two, a character of two bytes is read or a part is replaced. -/
theorem reads_first_of_two (hb : 194 ≤ b.toNat ∧ b.toNat < 224) : ReadsFirst b rest := by
  have hlead := Lead.of_two (n := b.toNat % 32) (by omega) (by omega)
  rw [of_nat_eq (b := b) (by omega)] at hlead
  refine reads_first_of_sequence (by decide) (by decide) (by decide) ?_ hlead rest
  intro taken hlength hall hfirst
  obtain ⟨c, rfl⟩ := List.length_eq_one_iff.1 hlength
  exact utf8_of_two (hall c List.mem_cons_self) hb

/-- Behind a lead byte of three, a character of three bytes is read or a part is replaced. -/
theorem reads_first_of_three (hb : 224 ≤ b.toNat ∧ b.toNat < 240) : ReadsFirst b rest := by
  have hlead := Lead.of_three (n := b.toNat % 16) (by omega)
  rw [of_nat_eq (b := b) (by omega)] at hlead
  refine reads_first_of_sequence ?_ ?_ ?_ ?_ hlead rest
  · split <;> decide
  · by_cases hlong : b.toNat % 16 = 0
    · rw [if_pos hlong, if_neg (by omega)]
      decide
    · rw [if_neg hlong]
      split <;> decide
  · split <;> decide
  · intro taken hlength hall hfirst
    obtain ⟨c, d, rfl⟩ := List.length_eq_two.1 hlength
    have hrange := hfirst c rfl
    refine utf8_of_three (hall c List.mem_cons_self) (hall d (by simp)) hb ?_ ?_
    · intro hlong
      rw [if_pos (by omega : b.toNat % 16 = 0)] at hrange
      exact hrange.1
    · intro hplain
      rw [if_pos (by omega : b.toNat % 16 = 13)] at hrange
      exact hrange.2

/-- Behind a lead byte of four, a character of four bytes is read or a part is replaced. -/
theorem reads_first_of_four (hb : 240 ≤ b.toNat ∧ b.toNat < 245) : ReadsFirst b rest := by
  have hlead := Lead.of_four (n := b.toNat % 8) (by omega)
  rw [of_nat_eq (b := b) (by omega)] at hlead
  refine reads_first_of_sequence ?_ ?_ ?_ ?_ hlead rest
  · split <;> decide
  · by_cases hlong : b.toNat % 8 = 0
    · rw [if_pos hlong, if_neg (by omega)]
      decide
    · rw [if_neg hlong]
      split <;> decide
  · split <;> decide
  · intro taken hlength hall hfirst
    obtain ⟨c, d, e, rfl⟩ := List.length_eq_three.1 hlength
    have hrange := hfirst c rfl
    refine utf8_of_four (hall c List.mem_cons_self) (hall d (by simp)) (hall e (by simp)) hb ?_ ?_
    · intro hlong
      rw [if_pos (by omega : b.toNat % 8 = 0)] at hrange
      exact hrange.1
    · intro hlast
      rw [if_pos (by omega : b.toNat % 8 = 4)] at hrange
      exact hrange.2

end

/-- Whatever the bytes are, the first character is one of these. -/
theorem reads_first (b : UInt8) (rest : List UInt8) : ReadsFirst b rest := by
  have hbyte : b.toNat < 256 := b.toNat_lt
  have hlead : b.toNat < 128 ∨ (128 ≤ b.toNat ∧ b.toNat < 194 ∨ 245 ≤ b.toNat) ∨
      (194 ≤ b.toNat ∧ b.toNat < 224) ∨ (224 ≤ b.toNat ∧ b.toNat < 240) ∨
      (240 ≤ b.toNat ∧ b.toNat < 245) := by omega
  rcases hlead with hone | hill | htwo | hthree | hfour
  · have hsingle : Lead.of b = .single := UInt8.ofNat_toNat (x := b) ▸ Lead.of_ascii hone
    have hread : firstChar b rest = (Char.ofNat b.toNat, rest) := by rw [firstChar, hsingle]
    refine .char hread ?_
    rw [utf8_of_one hone, List.singleton_append]
  · have hread : firstChar b rest = (replacement, rest) := by rw [firstChar, Lead.of_ill hill]
    exact .replaced hread (List.nil_append rest).symm fun hne => absurd rfl hne
  · exact reads_first_of_two rest htwo
  · exact reads_first_of_three rest hthree
  · exact reads_first_of_four rest hfour

end EngineLink.Text
