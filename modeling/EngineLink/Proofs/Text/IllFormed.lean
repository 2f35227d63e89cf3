import EngineLink.Proofs.Text.Lossy

/-!
# What the lossy reading replaces

Bytes are characters and parts that are none. Such a part is as long as it can be and still begin a
character, but at least one byte, and it is replaced as a whole. Read `IllFormed` and `Decodes`
first: a part that is replaced, and the text of bytes as a relation. `decodes_iff` says that the
lossy reading computes this text, and that bytes have no other. So a character other than the
replacement is in a text only if its bytes are among those that were read, and begins it exactly if
its bytes begin them.
-/

namespace EngineLink.Text

/-- A part in front of other bytes that is replaced. It is one byte or begins a character, no
character stands there, and with one more byte the part would begin none. -/
structure IllFormed (part rest : List UInt8) : Prop where
  nonempty : part ≠ []
  begins : part.length ≠ 1 → Begins part
  no_char : ∀ c, ¬ String.utf8EncodeChar c <+: part ++ rest
  longest : ∀ b ∈ rest.head?, ¬ Begins (part ++ [b])

/-- Bytes are read as characters: each as itself, and each part that is none as the replacement. -/
inductive Decodes : List UInt8 → List Char → Prop
  | nil : Decodes [] []
  | char (c : Char) {rest : List UInt8} {cs : List Char} (hrest : Decodes rest cs) :
      Decodes (String.utf8EncodeChar c ++ rest) (c :: cs)
  | ill {part rest : List UInt8} {cs : List Char} (hpart : IllFormed part rest)
      (hrest : Decodes rest cs) : Decodes (part ++ rest) (replacement :: cs)

/-- Fewer of the bytes that begin a character begin it too. -/
theorem Begins.of_prefix {part bytes : List UInt8} (h : Begins bytes) (hpart : part <+: bytes) :
    Begins part := by
  obtain ⟨c, hc⟩ := h
  exact ⟨c, hpart.trans hc⟩

/-! ## The part is determined -/

namespace IllFormed

variable {part other rest left : List UInt8}

/-- A part that is replaced is not the beginning of a longer one. -/
theorem eq_nil_of_longer (h : IllFormed part (other ++ left))
    (hlonger : IllFormed (part ++ other) left) : other = [] := by
  cases other with
  | nil => rfl
  | cons b other =>
      have hbegins : Begins (part ++ b :: other) := by
        refine hlonger.begins fun hone => h.nonempty ?_
        rw [List.length_append, List.length_cons] at hone
        exact List.length_eq_zero_iff.1 (by omega)
      have hprefix : part ++ [b] <+: part ++ b :: other :=
        (List.prefix_append_right_inj part).2 ⟨other, rfl⟩
      exact absurd (hbegins.of_prefix hprefix) (h.longest b rfl)

/-- The bytes determine the part that is replaced. -/
theorem unique (h : IllFormed part rest) (hother : IllFormed other left)
    (hbytes : part ++ rest = other ++ left) : part = other ∧ rest = left := by
  rcases List.append_eq_append_iff.1 hbytes with ⟨more, rfl, rfl⟩ | ⟨more, rfl, rfl⟩
  · obtain rfl := h.eq_nil_of_longer hother
    exact ⟨(List.append_nil part).symm, List.nil_append left⟩
  · obtain rfl := hother.eq_nil_of_longer h
    exact ⟨List.append_nil other, (List.nil_append rest).symm⟩

end IllFormed

/-! ## The part is replaced -/

/-- Where the reading of a character stops in front of a byte, it has not looked behind this
byte. -/
theorem continue_char_of_stop {bits more : Nat} {low high b : UInt8} {taken rest : List UInt8}
    {c : Char} (h : continueChar bits more low high (taken ++ b :: rest) = (c, b :: rest))
    (other : List UInt8) :
    continueChar bits more low high (taken ++ b :: other) = (c, b :: other) := by
  have hshorter (t : UInt8) (taken : List UInt8) : t :: (taken ++ b :: rest) ≠ b :: rest := by
    intro heq
    have := congrArg List.length heq
    rw [List.length_cons, List.length_append, List.length_cons] at this
    omega
  induction taken generalizing bits more low high with
  | nil =>
      cases more with
      | zero =>
          rw [List.nil_append, continueChar] at h ⊢
          rw [(Prod.mk.inj h).1]
      | succ more =>
          rw [List.nil_append, continueChar] at h ⊢
          split at h
          · have := continue_char_length_le (bits * 64 + b.toNat % 64) more 0x80 0xBF rest
            rw [h, List.length_cons] at this
            omega
          · next hstop => rw [if_neg hstop, (Prod.mk.inj h).1]
  | cons t taken ih =>
      cases more with
      | zero =>
          rw [List.cons_append, continueChar] at h
          exact absurd (Prod.mk.inj h).2 (hshorter t taken)
      | succ more =>
          rw [List.cons_append, continueChar] at h ⊢
          split at h
          · next hfits =>
              rw [if_pos hfits]
              exact ih h
          · exact absurd (Prod.mk.inj h).2 (hshorter t taken)

/-- A reader that stops in front of a byte does not depend on what stands behind it. -/
theorem first_char_of_stop {a b : UInt8} {taken rest : List UInt8} {c : Char}
    (h : firstChar a (taken ++ b :: rest) = (c, b :: rest)) (other : List UInt8) :
    firstChar a (taken ++ b :: other) = (c, b :: other) := by
  have hnone : taken ++ b :: rest = b :: rest → taken = [] := List.append_left_eq_self.1
  unfold firstChar at h ⊢
  split at h
  · obtain ⟨rfl, hrest⟩ := Prod.mk.inj h
    rw [hnone hrest, List.nil_append]
  · obtain ⟨rfl, hrest⟩ := Prod.mk.inj h
    rw [hnone hrest, List.nil_append]
  · exact continue_char_of_stop h other

section

variable {b : UInt8} {rest left : List UInt8}

/-- A character is read where its bytes come first. -/
theorem first_char_of_bytes {c : Char} (h : String.utf8EncodeChar c ++ left = b :: rest) :
    firstChar b rest = (c, left) := by
  obtain ⟨first, more, hbytes, hread⟩ := first_char_utf8 c left
  rw [hbytes, List.cons_append] at h
  obtain ⟨rfl, rfl⟩ := List.cons.inj h
  exact hread

/-- What is replaced is a part as long as it can be. -/
theorem ill_formed_of_read {taken : List UInt8}
    (hread : firstChar b (taken ++ left) = (replacement, left))
    (hbegins : taken ≠ [] → Begins (b :: taken))
    (hnone : ∀ c, ¬ String.utf8EncodeChar c <+: b :: (taken ++ left)) :
    IllFormed (b :: taken) left where
  nonempty := List.cons_ne_nil b taken
  begins := fun hlength => hbegins fun hnil => hlength (by rw [hnil, List.length_singleton])
  no_char := hnone
  longest := by
    -- a character that goes on with the byte would be read, but the reading stopped in front of it
    intro next hnext hbegun
    obtain ⟨rest, rfl⟩ := List.head?_eq_some_iff.1 hnext
    obtain ⟨c, more, hbytes⟩ := hbegun
    have hchar : firstChar b (taken ++ next :: more) = (c, []) := by
      apply first_char_of_bytes
      rw [← hbytes, List.append_nil, List.append_assoc, List.cons_append, List.singleton_append]
    rw [first_char_of_stop hread more] at hchar
    exact absurd (Prod.mk.inj hchar).2 (List.cons_ne_nil next more)

/-- A part that is no character is replaced as a whole. -/
theorem first_char_of_ill_formed {taken : List UInt8} (h : IllFormed (b :: taken) left) :
    firstChar b (taken ++ left) = (replacement, left) := by
  cases reads_first b (taken ++ left) with
  | @char c rest hread hbytes => exact absurd ⟨rest, hbytes.symm⟩ (h.no_char c)
  | @replaced other rest hread hsplit hbegins =>
      rw [hsplit] at hread
      have hother := ill_formed_of_read hread hbegins fun c => hsplit ▸ h.no_char c
      obtain ⟨-, rfl⟩ := h.unique hother (congrArg (b :: ·) hsplit)
      rw [hsplit, hread]

end

/-! ## The text of bytes -/

/-- The lossy reading gives the text of the bytes. -/
theorem decodes_lossy_chars (bytes : List UInt8) : Decodes bytes (lossyChars bytes) := by
  fun_induction lossyChars bytes with
  | case1 => exact .nil
  | case2 b rest first ih =>
      by_cases hchar : ∃ c left, String.utf8EncodeChar c ++ left = b :: rest
      · obtain ⟨c, left, hbytes⟩ := hchar
        have hfirst : first = (c, left) := first_char_of_bytes hbytes
        rw [hfirst] at ih ⊢
        rw [← hbytes]
        exact .char c ih
      · have hnone : ∀ c, ¬ String.utf8EncodeChar c <+: b :: rest := by
          rintro c ⟨left, hbytes⟩
          exact hchar ⟨c, left, hbytes⟩
        cases reads_first b rest with
        | @char c left hread hbytes => exact absurd ⟨c, left, hbytes.symm⟩ hchar
        | @replaced taken left hread hrest hbegins =>
            have hfirst : first = (replacement, left) := hread
            rw [hfirst] at ih ⊢
            subst hrest
            exact .ill (ill_formed_of_read hread hbegins hnone) ih

/-- The lossy reading replaces exactly the longest parts that are no characters: bytes have one
text, and this is it. -/
theorem decodes_iff (bytes : List UInt8) (cs : List Char) :
    Decodes bytes cs ↔ lossyChars bytes = cs := by
  constructor
  · intro h
    induction h with
    | nil => rw [lossyChars]
    | char c hrest ih => rw [lossy_chars_utf8_encode, ih]
    | @ill part rest cs hpart hrest ih =>
        obtain ⟨b, taken, rfl⟩ := List.exists_cons_of_ne_nil hpart.nonempty
        rw [List.cons_append, lossyChars, first_char_of_ill_formed hpart]
        exact congrArg _ ih
  · rintro rfl
    exact decodes_lossy_chars bytes

/-! ## The characters of a text -/

/-- A character in a text that is not the replacement is in the bytes that were read. -/
theorem mem_of_mem_lossy_chars {c : Char} (hplain : c ≠ replacement) {bytes : List UInt8}
    (h : c ∈ lossyChars bytes) : String.utf8EncodeChar c <:+: bytes := by
  have hdecodes := decodes_lossy_chars bytes
  generalize lossyChars bytes = cs at h hdecodes
  induction hdecodes with
  | nil => cases h
  | char d hrest ih =>
      rcases List.mem_cons.1 h with rfl | hlater
      · exact List.infix_append' [] _ _
      · exact (ih hlater).trans (List.suffix_append _ _).isInfix
  | ill hpart hrest ih =>
      have hlater := (List.mem_cons.1 h).resolve_left hplain
      exact (ih hlater).trans (List.suffix_append _ _).isInfix

/-- A text that begins with a character other than the replacement was read from bytes that begin
with those of the character. -/
theorem bytes_of_lossy_cons {c : Char} (hplain : c ≠ replacement) {bytes : List UInt8}
    {cs : List Char} (h : lossyChars bytes = c :: cs) :
    ∃ rest, bytes = String.utf8EncodeChar c ++ rest ∧ lossyChars rest = cs := by
  cases (decodes_iff bytes (c :: cs)).2 h with
  | char c hrest => exact ⟨_, rfl, (decodes_iff _ cs).1 hrest⟩
  | ill hpart hrest => exact absurd rfl hplain

/-- Characters other than the replacement begin a text exactly if their bytes begin those that were
read. -/
theorem prefix_lossy_chars_iff {cs : List Char} (hplain : replacement ∉ cs) (bytes : List UInt8) :
    cs <+: lossyChars bytes ↔ utf8Chars cs <+: bytes := by
  constructor
  · intro h
    induction cs generalizing bytes with
    | nil => exact List.nil_prefix
    | cons c cs ih =>
        obtain ⟨hc, hcs⟩ := not_or.1 (mt List.mem_cons.2 hplain)
        obtain ⟨later, hlater⟩ := h
        obtain ⟨rest, rfl, hrest⟩ := bytes_of_lossy_cons (Ne.symm hc) hlater.symm
        show String.utf8EncodeChar c ++ utf8Chars cs <+: _
        exact (List.prefix_append_right_inj _).2 (ih hcs rest ⟨later, hrest.symm⟩)
  · rintro ⟨rest, rfl⟩
    rw [lossy_chars_utf8_chars]
    exact List.prefix_append _ _

end EngineLink.Text
