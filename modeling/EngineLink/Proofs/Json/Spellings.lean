import EngineLink.Proofs.Json.Numbers

/-!
# Spellings of JSON values

A text may have white space around its tokens and any escapes in its strings and still holds the
same value. `Spelled` says which bytes hold which value; the compact text is one of them. Whatever
the spelling, the reader finds a value, and where a string was written it finds that string.

Read `Spelled` and `Fits` first, then `ReadsAs`. `spelled_chars` and `reads_as_spelled` are the
results.
-/

namespace EngineLink.Json

/-! ## Spellings -/

/-- White space between tokens. -/
def Gap (bytes : List UInt8) : Prop :=
  ∀ b ∈ bytes, isSpace b

/-- An escape with a code of four hexadecimal digits. -/
def CodeSpelled (n : Nat) (bytes : List UInt8) : Prop :=
  ∃ a b c d, bytes = [92, 117, a, b, c, d] ∧ fourHex? a b c d = some n

/-- What a character may be written as in a string. -/
inductive CharSpelled : Char → List UInt8 → Prop where
  /-- Itself. -/
  | plain {c : Char} : c ≠ '"' → c ≠ '\\' → 32 ≤ c.toNat → CharSpelled c (Text.utf8Chars [c])
  /-- An escape of its own. -/
  | short {c : Char} {b : UInt8} : simpleEscape? b = some c → CharSpelled c [92, b]
  /-- Its code. -/
  | code {c : Char} {bytes : List UInt8} : CodeSpelled c.toNat bytes → CharSpelled c bytes
  /-- The codes of a surrogate pair. -/
  | pair {c : Char} {high low : Nat} {first second : List UInt8} :
      CodeSpelled high first → CodeSpelled low second →
      0xD800 ≤ high ∧ high ≤ 0xDBFF → 0xDC00 ≤ low ∧ low ≤ 0xDFFF →
      c.toNat = (high - 0xD800) * 1024 + (low - 0xDC00) + 0x10000 →
      CharSpelled c (first ++ second)

/-- What characters may be written as behind an opening quote, with the closing one. -/
inductive Quoted : List Char → List UInt8 → Prop where
  | nil : Quoted [] [34]
  | cons {c : Char} {cs : List Char} {bytes more : List UInt8} :
      CharSpelled c bytes → Quoted cs more → Quoted (c :: cs) (bytes ++ more)

/-- The comma in front of an item or a member that is not the first. -/
def comma (first : Bool) : List UInt8 :=
  bif first then [] else [44]

mutual

/-- What a value may be written as. -/
inductive Spelled : Json → List UInt8 → Prop where
  | null : Spelled .null (Text.utf8Chars ['n', 'u', 'l', 'l'])
  | bool (b : Bool) : Spelled (.bool b)
      (Text.utf8Chars (bif b then ['t', 'r', 'u', 'e'] else ['f', 'a', 'l', 's', 'e']))
  | number (n : Number) : Spelled (.number n) (Text.utf8Chars n.chars)
  | string {s : String} {bytes : List UInt8} : Quoted s.toList bytes →
      Spelled (.string s) (34 :: bytes)
  | array {items : List Json} {bytes : List UInt8} : ItemsSpelled true items bytes →
      Spelled (.array items) (91 :: bytes)
  | object {members : List (String × Json)} {bytes : List UInt8} :
      MembersSpelled true members bytes → Spelled (.object members) (123 :: bytes)

/-- What items may be written as, with the closing bracket. -/
inductive ItemsSpelled : Bool → List Json → List UInt8 → Prop where
  | nil {first : Bool} {gap : List UInt8} : Gap gap → ItemsSpelled first [] (gap ++ [93])
  | cons {first : Bool} {item : Json} {items : List Json} {gap before text more : List UInt8} :
      Gap gap → Gap before → Spelled item text → ItemsSpelled false items more →
      ItemsSpelled first (item :: items) (gap ++ (comma first ++ (before ++ (text ++ more))))

/-- What members may be written as, with the closing brace. -/
inductive MembersSpelled : Bool → List (String × Json) → List UInt8 → Prop where
  | nil {first : Bool} {gap : List UInt8} : Gap gap → MembersSpelled first [] (gap ++ [125])
  | cons {first : Bool} {name : String} {value : Json} {members : List (String × Json)}
      {gap front quoted behind before text more : List UInt8} :
      Gap gap → Gap front → Quoted name.toList quoted → Gap behind → Gap before →
      Spelled value text → MembersSpelled false members more →
      MembersSpelled first ((name, value) :: members) (gap ++ (comma first ++ (front ++
        34 :: (quoted ++ (behind ++ 58 :: (before ++ (text ++ more)))))))

end

/-- A message is a spelling of a value, with white space around it. -/
def Spells (message : String) (v : Json) : Prop :=
  ∃ before text after, Gap before ∧ Spelled v text ∧ Gap after ∧
    Text.utf8 message = before ++ (text ++ after)

/-! ## The compact text -/

/-- There need not be white space between tokens. -/
theorem gap_nil : Gap [] :=
  List.forall_mem_nil _

/-- A printed character is one of its spellings. -/
theorem char_spelled_escaped (c : Char) : CharSpelled c (Text.utf8Chars (escaped c)) := by
  rcases escaped_cases c with ⟨b, hbytes, hsimple⟩ | ⟨-, a, b, hbytes, hcode⟩ | ⟨hself, hplain⟩
  · rw [hbytes]
    exact .short hsimple
  · rw [hbytes]
    exact .code ⟨48, 48, a, b, rfl, hcode⟩
  · rw [hself]
    refine .plain ?_ ?_ (not_lt.1 fun hcontrol => ?_)
    · rintro rfl
      exact (hplain 34 List.mem_cons_self).1 rfl
    · rintro rfl
      exact (hplain 92 List.mem_cons_self).2.1 rfl
    · have hbytes : Text.utf8Chars [c] = [.ofNat c.toNat] := by
        show String.utf8EncodeChar c ++ [] = _
        rw [Text.utf8_of_ascii (by omega), List.append_nil]
      rw [hbytes] at hplain
      refine (hplain _ List.mem_cons_self).2.2 ?_
      rw [UInt8.lt_iff_toNat_lt, UInt8.toNat_ofNat']
      exact (Nat.mod_le _ _).trans_lt hcontrol

/-- Printed characters with a quote behind them are one of their spellings. -/
theorem quoted_escaped (cs : List Char) :
    Quoted cs (Text.utf8Chars (cs.flatMap escaped) ++ [34]) := by
  induction cs with
  | nil => exact .nil
  | cons c cs ih =>
      rw [List.flatMap_cons, Text.utf8_chars_append, List.append_assoc]
      exact .cons (char_spelled_escaped c) ih

/-- A printed string stands behind a quote and is ended by one. -/
theorem utf8_chars_string (s : String) :
    Text.utf8Chars (stringChars s) = 34 :: (Text.utf8Chars (s.toList.flatMap escaped) ++ [34]) :=
  congrArg (34 :: ·) (Text.utf8_chars_append _ _)

/-- An item in front of others is spelled without white space. -/
theorem ItemsSpelled.printed (first : Bool) {item : Json} {items : List Json}
    {text more : List UInt8} (hitem : Spelled item text) (hmore : ItemsSpelled false items more) :
    ItemsSpelled first (item :: items) (comma first ++ (text ++ more)) :=
  @ItemsSpelled.cons first item items [] [] text more gap_nil gap_nil hitem hmore

/-- The bytes of a member and of what is behind it. -/
theorem utf8_chars_name (name : String) (v : Json) (tail : List Char) :
    Text.utf8Chars (stringChars name ++ ':' :: (v.chars ++ tail)) ++ [125] =
      Text.utf8Chars (stringChars name) ++
        58 :: (Text.utf8Chars v.chars ++ (Text.utf8Chars tail ++ [125])) := by
  rw [Text.utf8_chars_append, List.append_assoc, ← List.append_assoc (Text.utf8Chars v.chars),
    ← Text.utf8_chars_append]
  rfl

/-- A member in front of others is spelled without white space. -/
theorem MembersSpelled.printed (first : Bool) (name : String) {v : Json}
    {members : List (String × Json)} {text more : List UInt8} (hv : Spelled v text)
    (hmore : MembersSpelled false members more) :
    MembersSpelled first ((name, v) :: members)
      (comma first ++ (Text.utf8Chars (stringChars name) ++ 58 :: (text ++ more))) := by
  have hname := quoted_escaped name.toList
  rw [utf8_chars_string]
  exact @MembersSpelled.cons first name v members [] [] _ [] [] text more gap_nil gap_nil hname
    gap_nil gap_nil hv hmore

mutual

/-- The compact text of a value is one of its spellings. -/
theorem spelled_chars (v : Json) : Spelled v (Text.utf8Chars v.chars) := by
  cases v with
  | null => exact .null
  | bool b => cases b <;> exact .bool _
  | number n => exact .number n
  | string s =>
      rw [chars, utf8_chars_string]
      exact .string (quoted_escaped s.toList)
  | array items =>
      have htext : Text.utf8Chars (chars (.array items)) =
          91 :: (Text.utf8Chars (itemsChars items) ++ [93]) := by
        rw [chars]
        exact congrArg (91 :: ·) (Text.utf8_chars_append _ _)
      rw [htext]
      exact .array (items_spelled_chars items)
  | object members =>
      have htext : Text.utf8Chars (chars (.object members)) =
          123 :: (Text.utf8Chars (membersChars members) ++ [125]) := by
        rw [chars]
        exact congrArg (123 :: ·) (Text.utf8_chars_append _ _)
      rw [htext]
      exact .object (members_spelled_chars members)

/-- The printed items of an array are one of their spellings. -/
theorem items_spelled_chars (items : List Json) :
    ItemsSpelled true items (Text.utf8Chars (itemsChars items) ++ [93]) := by
  cases items with
  | nil => exact .nil gap_nil
  | cons item items =>
      rw [itemsChars, Text.utf8_chars_append, List.append_assoc]
      exact .printed true (spelled_chars item) (later_items_spelled_chars items)

/-- Printed items behind others are one of their spellings. -/
theorem later_items_spelled_chars (items : List Json) :
    ItemsSpelled false items (Text.utf8Chars (laterItemsChars items) ++ [93]) := by
  cases items with
  | nil => exact .nil gap_nil
  | cons item items =>
      have htext : Text.utf8Chars (laterItemsChars (item :: items)) ++ [93] = 44 ::
          (Text.utf8Chars item.chars ++ (Text.utf8Chars (laterItemsChars items) ++ [93])) := by
        rw [laterItemsChars, ← List.append_assoc, ← Text.utf8_chars_append]
        rfl
      rw [htext]
      exact .printed false (spelled_chars item) (later_items_spelled_chars items)

/-- The printed members of an object are one of their spellings. -/
theorem members_spelled_chars (members : List (String × Json)) :
    MembersSpelled true members (Text.utf8Chars (membersChars members) ++ [125]) := by
  match members with
  | [] => exact .nil gap_nil
  | (name, v) :: members =>
      rw [membersChars, utf8_chars_name]
      exact .printed true name (spelled_chars v) (later_members_spelled_chars members)

/-- Printed members behind others are one of their spellings. -/
theorem later_members_spelled_chars (members : List (String × Json)) :
    MembersSpelled false members (Text.utf8Chars (laterMembersChars members) ++ [125]) := by
  match members with
  | [] => exact .nil gap_nil
  | (name, v) :: members =>
      have htext : Text.utf8Chars (laterMembersChars ((name, v) :: members)) ++ [125] = 44 :: _ :=
        congrArg (44 :: ·) (utf8_chars_name name v (laterMembersChars members))
      rw [htext]
      exact .printed false name (spelled_chars v) (later_members_spelled_chars members)

end

/-- The compact text of a value spells it. -/
theorem spells_compact (v : Json) : Spells v.compact v := by
  refine ⟨[], Text.utf8Chars v.chars, [], gap_nil, spelled_chars v, gap_nil, ?_⟩
  rw [List.append_nil, List.nil_append, Text.utf8, compact, String.toList_ofList]

/-! ## Reading strings -/

section
variable {t found rest : List UInt8} (h : Finds (stringBytes t) found rest)
include h

/-- A character is read from its code, in front of the rest of the string. -/
theorem finds_code {c : Char} {bytes : List UInt8} (hcode : CodeSpelled c.toNat bytes) :
    Finds (stringBytes (bytes ++ t)) (Text.utf8Chars [c] ++ found) rest := by
  obtain ⟨a, b, d, e, rfl, hvalue⟩ := hcode
  have hvalid : c.toNat < 0xD800 ∨ 0xDFFF < c.toNat := c.valid.imp id And.left
  have hescape := finds_escape_code hvalid hvalue t
  rw [Char.ofNat_toNat] at hescape
  exact finds_behind_escape hescape h

/-- The two codes of a surrogate pair are read as one character. -/
theorem finds_pair {c : Char} {high low : Nat} {first second : List UInt8}
    (hfirst : CodeSpelled high first) (hsecond : CodeSpelled low second)
    (hhigh : 0xD800 ≤ high ∧ high ≤ 0xDBFF) (hlow : 0xDC00 ≤ low ∧ low ≤ 0xDFFF)
    (hc : c.toNat = (high - 0xD800) * 1024 + (low - 0xDC00) + 0x10000) :
    Finds (stringBytes (first ++ second ++ t)) (Text.utf8Chars [c] ++ found) rest := by
  obtain ⟨a, b, d, e, rfl, hfirst⟩ := hfirst
  obtain ⟨a', b', d', e', rfl, hsecond⟩ := hsecond
  have hescape : Finds
      (escape (117 :: a :: b :: d :: e :: 92 :: 117 :: a' :: b' :: d' :: e' :: t)) c t := by
    refine ⟨by simp only [List.length_cons]; omega, ?_⟩
    have hnotLow : ¬ (0xDC00 ≤ high ∧ high ≤ 0xDFFF) := by omega
    have hnotPlain : ¬ (high < 0xD800 ∨ 0xDBFF < high) := by omega
    rw [escape, if_pos rfl, codeEscape, hexCode, hfirst]
    simp only [hnotLow, hnotPlain, if_false, lowSurrogate, ne_eq, not_true, hexCode, hsecond, hlow,
      and_self, if_true, ← hc, Char.ofNat_toNat]
    rfl
  exact finds_behind_escape hescape h

/-- A character is read from any of its spellings, in front of the rest of the string. -/
theorem finds_char {c : Char} {bytes : List UInt8} (hc : CharSpelled c bytes) :
    Finds (stringBytes (bytes ++ t)) (Text.utf8Chars [c] ++ found) rest := by
  cases hc with
  | plain hquote hescape hcontrol =>
      exact finds_plain (is_plain_of_mem_utf8 hquote hescape (not_lt.2 hcontrol)) h
  | short hsimple => exact finds_behind_escape (finds_escape_simple hsimple t) h
  | code hcode => exact finds_code h hcode
  | pair hfirst hsecond hhigh hlow hc => exact finds_pair h hfirst hsecond hhigh hlow hc

end

/-- A string is read from any of its spellings, behind the opening quote. -/
theorem finds_quoted {s : String} {bytes : List UInt8} (h : Quoted s.toList bytes)
    (rest : List UInt8) : Finds (readString (bytes ++ rest)) s rest := by
  have hbytes {cs : List Char} {bytes : List UInt8} (h : Quoted cs bytes) :
      Finds (stringBytes (bytes ++ rest)) (Text.utf8Chars cs) rest := by
    induction h with
    | nil =>
        refine ⟨by simp, ?_⟩
        show stringBytes (34 :: rest) = _
        rw [stringBytes, if_pos rfl]
        rfl
    | cons hc _ ih =>
        have hfound := finds_char ih hc
        rw [← List.append_assoc, ← Text.utf8_chars_append] at hfound
        exact hfound
  obtain ⟨hshorter, hok⟩ := hbytes h
  refine ⟨hshorter, ?_⟩
  have hback : Text.lossy (Text.utf8Chars s.toList) = s := Text.lossy_utf8 s
  rw [readString, hok]
  simp only [hback]

/-! ## Reading items and members -/

/-- White space is skipped. -/
theorem skip_space_gap {gap : List UInt8} (hgap : Gap gap) (rest : List UInt8) :
    skipSpace (gap ++ rest) = skipSpace rest :=
  List.dropWhile_append_of_pos hgap

/-- A byte that a value may begin with: no white space and no closing bracket. -/
def OpensValue (b : UInt8) : Prop :=
  isSpace b = false ∧ b ≠ 93

/-- Bytes begin as a value does, and wherever they come next a reader finds a value in them that
is the same string, or no string either. -/
structure ReadsAs (item : ValueReader) (v : Json) (text : List UInt8) : Prop where
  opens : ∃ b more, text = b :: more ∧ OpensValue b
  finds : ∀ {s rest}, skipSpace s = text ++ rest → EndsNumber rest →
    ∃ found, asString? found = asString? v ∧ Finds (item s) found rest

/-- White space and a token that is no part of a number end a number. -/
theorem ends_number_gap {gap : List UInt8} (hgap : Gap gap) {b : UInt8} {more : List UInt8}
    (hb : EndsNumber (b :: more)) : EndsNumber (gap ++ b :: more) := by
  cases gap with
  | nil => exact hb
  | cons c gap =>
      rintro _ ⟨⟩
      have hspace : isSpace c := hgap c List.mem_cons_self
      simp only [isSpace, Bool.or_eq_true, decide_eq_true_eq] at hspace
      rcases hspace with ((rfl | rfl) | rfl) | rfl <;> exact ⟨rfl, by decide, rfl⟩

/-- A comma and a closing bracket or brace end a number. -/
theorem ends_number_token {b : UInt8} (h : b = 44 ∨ b = 93 ∨ b = 125) (more : List UInt8) :
    EndsNumber (b :: more) := by
  rintro _ ⟨⟩
  rcases h with rfl | rfl | rfl <;> exact ⟨rfl, by decide, rfl⟩

/-- What stands behind an item ends a number. -/
theorem ItemsSpelled.ends_number {items : List Json} {bytes : List UInt8}
    (h : ItemsSpelled false items bytes) (rest : List UInt8) : EndsNumber (bytes ++ rest) := by
  cases h with
  | nil hgap =>
      rw [List.append_assoc]
      exact ends_number_gap hgap (ends_number_token (.inr (.inl rfl)) rest)
  | cons hgap hbefore hitem hmore =>
      rw [List.append_assoc]
      exact ends_number_gap hgap (ends_number_token (.inl rfl) _)

/-- What stands behind a member ends a number. -/
theorem MembersSpelled.ends_number {members : List (String × Json)} {bytes : List UInt8}
    (h : MembersSpelled false members bytes) (rest : List UInt8) :
    EndsNumber (bytes ++ rest) := by
  cases h with
  | nil hgap =>
      rw [List.append_assoc]
      exact ends_number_gap hgap (ends_number_token (.inr (.inr rfl)) rest)
  | cons hgap =>
      rw [List.append_assoc]
      exact ends_number_gap hgap (ends_number_token (.inl rfl) _)

/-- A step leads to the next item over the white space and the comma in front of it. -/
theorem to_item_spelled (first : Bool) {gap before : List UInt8} (hgap : Gap gap)
    (hbefore : Gap before) {b : UInt8} (hb : OpensValue b) (more : List UInt8) :
    ∃ c tail, skipSpace (gap ++ (comma first ++ (before ++ b :: more))) = c :: tail ∧ c ≠ 93 ∧
      toItem first c tail = .ok (b :: more) := by
  have hskip : skipSpace (before ++ b :: more) = b :: more := by
    rw [skip_space_gap hbefore]
    exact skip_space_of_token hb.1 more
  rw [skip_space_gap hgap]
  cases first with
  | true => exact ⟨b, more, hskip, hb.2, rfl⟩
  | false =>
      refine ⟨44, before ++ b :: more, skip_space_of_token rfl _, by decide, ?_⟩
      rw [toItem, if_neg Bool.false_ne_true, if_pos rfl, hskip]
      exact if_neg hb.2

/-- A step leads to the next name over the white space and the comma in front of it. -/
theorem to_name_spelled (first : Bool) {gap front : List UInt8} (hgap : Gap gap)
    (hfront : Gap front) (more : List UInt8) :
    ∃ c tail, skipSpace (gap ++ (comma first ++ (front ++ 34 :: more))) = c :: tail ∧ c ≠ 125 ∧
      toName first c tail = .ok more := by
  have hskip : skipSpace (front ++ 34 :: more) = 34 :: more := by
    rw [skip_space_gap hfront]
    exact skip_space_of_token rfl more
  rw [skip_space_gap hgap]
  cases first with
  | true => exact ⟨34, more, hskip, by decide, rfl⟩
  | false =>
      refine ⟨44, front ++ 34 :: more, skip_space_of_token rfl _, by decide, ?_⟩
      rw [toName, if_neg Bool.false_ne_true, if_pos rfl, hskip]
      rfl

section
variable {item : ValueReader}

/-- Items are found in any of their spellings, if each of them is. -/
theorem finds_items {vs : List Json} (hvs : ∀ v ∈ vs, ∀ text, Spelled v text → ReadsAs item v text)
    {first : Bool} {bytes : List UInt8} (h : ItemsSpelled first vs bytes) (rest : List UInt8) :
    ∃ found, Finds (items item first (bytes ++ rest)) found rest := by
  induction vs generalizing first bytes with
  | nil =>
      cases h with
      | nil hgap =>
          refine ⟨[], finds_items_end ?_ item first⟩
          rw [List.append_assoc, skip_space_gap hgap]
          exact skip_space_of_token rfl rest
  | cons v vs ih =>
      rw [List.forall_mem_cons] at hvs
      cases h with
      | @cons _ _ _ gap before text more hgap hbefore hitem hmore =>
          have hreads := hvs.1 text hitem
          obtain ⟨b, tail, htext, hopens⟩ := hreads.opens
          have hself : skipSpace (text ++ (more ++ rest)) = text ++ (more ++ rest) := by
            rw [htext]
            exact skip_space_of_token hopens.1 _
          obtain ⟨found, -, hfound⟩ := hreads.finds hself (hmore.ends_number rest)
          obtain ⟨later, hlater⟩ := ih hvs.2 hmore
          obtain ⟨c, rear, hskip, hopen, hstep⟩ :=
            to_item_spelled first hgap hbefore hopens (tail ++ (more ++ rest))
          rw [← List.cons_append, ← htext] at hskip hstep
          have hbytes : gap ++ (comma first ++ (before ++ (text ++ more))) ++ rest =
              gap ++ (comma first ++ (before ++ (text ++ (more ++ rest)))) := by
            simp only [List.append_assoc]
          rw [hbytes]
          exact ⟨found :: later, finds_items_next hskip hopen hstep hfound hlater⟩

/-- What a reader keeps of members: their names, and their values where these are strings. -/
def strings (members : List (String × Json)) : List (String × Option String) :=
  members.map fun m => (m.1, asString? m.2)

/-- Members are found in any of their spellings, if the value of each of them is: the same names
and the same strings. -/
theorem finds_spelled_members {ms : List (String × Json)}
    (hms : ∀ m ∈ ms, ∀ text, Spelled m.2 text → ReadsAs item m.2 text) {first : Bool}
    {bytes : List UInt8} (h : MembersSpelled first ms bytes) (rest : List UInt8) :
    ∃ found, strings found = strings ms ∧
      Finds (members item first (bytes ++ rest)) found rest := by
  induction ms generalizing first bytes with
  | nil =>
      cases h with
      | nil hgap =>
          refine ⟨[], rfl, finds_members_end ?_ item first⟩
          rw [List.append_assoc, skip_space_gap hgap]
          exact skip_space_of_token rfl rest
  | cons m ms ih =>
      rw [List.forall_mem_cons] at hms
      cases h with
      | @cons _ name v _ gap front quoted behind before text more hgap hfront hname hbehind hbefore
          hvalue hmore =>
          have hreads := hms.1 text hvalue
          obtain ⟨b, tail, htext, hopens⟩ := hreads.opens
          have hself : skipSpace (before ++ (text ++ (more ++ rest))) =
              text ++ (more ++ rest) := by
            rw [skip_space_gap hbefore, htext]
            exact skip_space_of_token hopens.1 _
          have hcolon : skipSpace (behind ++ 58 :: (before ++ (text ++ (more ++ rest)))) =
              58 :: (before ++ (text ++ (more ++ rest))) := by
            rw [skip_space_gap hbehind]
            exact skip_space_of_token rfl _
          obtain ⟨found, hsame, hfound⟩ := hreads.finds hself (hmore.ends_number rest)
          obtain ⟨later, hlaterSame, hlater⟩ := ih hms.2 hmore
          have hmember := finds_member (finds_quoted hname _) hcolon hfound
          obtain ⟨c, rear, hskip, hopen, hstep⟩ := to_name_spelled first hgap hfront
            (quoted ++ (behind ++ 58 :: (before ++ (text ++ (more ++ rest)))))
          have hbytes : gap ++ (comma first ++ (front ++ 34 :: (quoted ++ (behind ++
              58 :: (before ++ (text ++ more)))))) ++ rest = gap ++ (comma first ++ (front ++
                34 :: (quoted ++ (behind ++ 58 :: (before ++ (text ++ (more ++ rest))))))) := by
            simp only [List.append_assoc, List.cons_append]
          rw [hbytes]
          refine ⟨(name, found) :: later, ?_, finds_members_next hskip hopen hstep hmember hlater⟩
          simp only [strings, List.map_cons, hsame] at hlaterSame ⊢
          rw [hlaterSame]

end

/-! ## Reading values -/

/-- Arrays and objects nest at most so deep in a value, and its numbers fit. -/
inductive Fits : Nat → Json → Prop where
  | null {depth : Nat} : Fits depth .null
  | bool {depth : Nat} {b : Bool} : Fits depth (.bool b)
  | number {depth : Nat} {n : Number} : n.Fits → Fits depth (.number n)
  | string {depth : Nat} {s : String} : Fits depth (.string s)
  | array {depth : Nat} {items : List Json} : (∀ item ∈ items, Fits depth item) →
      Fits (depth + 1) (.array items)
  | object {depth : Nat} {members : List (String × Json)} : (∀ m ∈ members, Fits depth m.2) →
      Fits (depth + 1) (.object members)

/-- A value may begin with a digit. -/
theorem opens_value_of_digit {b : UInt8} {d : Nat} (hb : digit? b = some d) : OpensValue b := by
  have h32 : b ≠ 32 := ne_of_digit hb rfl
  have h10 : b ≠ 10 := ne_of_digit hb rfl
  have h9 : b ≠ 9 := ne_of_digit hb rfl
  have h13 : b ≠ 13 := ne_of_digit hb rfl
  refine ⟨?_, ne_of_digit hb rfl⟩
  simp only [isSpace, h32, h10, h9, h13, decide_false, Bool.or_self]

/-- Every spelling of a value begins as a value does. -/
theorem Spelled.opens {depth : Nat} {v : Json} {text : List UInt8} (h : Spelled v text)
    (hfits : Fits depth v) : ∃ b more, text = b :: more ∧ OpensValue b := by
  cases h with
  | null => exact ⟨110, _, rfl, rfl, by decide⟩
  | bool b =>
      cases b with
      | true => exact ⟨116, _, rfl, rfl, by decide⟩
      | false => exact ⟨102, _, rfl, rfl, by decide⟩
  | number n =>
      cases hfits with
      | number hn =>
          rcases number_chars_cases hn with ⟨text, htext, -⟩ | hmagnitude | hnull
          · exact ⟨45, text, htext, rfl, by decide⟩
          · obtain ⟨b, more, d, htext, hb⟩ := hmagnitude.first
            exact ⟨b, more, htext, opens_value_of_digit hb⟩
          · rw [hnull]
            exact ⟨110, _, rfl, rfl, by decide⟩
  | string => exact ⟨34, _, rfl, rfl, by decide⟩
  | array => exact ⟨91, _, rfl, rfl, by decide⟩
  | object => exact ⟨123, _, rfl, rfl, by decide⟩

section
variable {depth : Nat} {s bytes rest : List UInt8}

/-- A string is read from any of its spellings. -/
theorem finds_string {text : String} (h : Quoted text.toList bytes)
    (hskip : skipSpace s = 34 :: (bytes ++ rest)) :
    Finds (value depth s) (.string text) rest := by
  obtain ⟨hshorter, hok⟩ := finds_quoted h rest
  refine finds_value hskip fun inner => ⟨Nat.lt_succ_of_lt hshorter, ?_⟩
  rw [value_at_quote, hok]
  rfl

/-- An array is read if its items are, one level less deep. -/
theorem finds_array {found : List Json}
    (h : Finds (items (value depth) true (bytes ++ rest)) found rest)
    (hskip : skipSpace s = 91 :: (bytes ++ rest)) :
    Finds (value (depth + 1) s) (.array found) rest := by
  obtain ⟨hshorter, hok⟩ := h
  refine finds_value_with hskip ⟨Nat.lt_succ_of_lt hshorter, ?_⟩
  rw [value_at_bracket, hok]
  rfl

/-- An object is read if its members are, one level less deep. -/
theorem finds_object {found : List (String × Json)}
    (h : Finds (members (value depth) true (bytes ++ rest)) found rest)
    (hskip : skipSpace s = 123 :: (bytes ++ rest)) :
    Finds (value (depth + 1) s) (.object found) rest := by
  obtain ⟨hshorter, hok⟩ := h
  refine finds_value_with hskip ⟨Nat.lt_succ_of_lt hshorter, ?_⟩
  rw [value_at_brace, hok]
  rfl

end

/-- A value that fits is read from any of its spellings as the same string, or as no string. -/
theorem reads_as_spelled {depth : Nat} {v : Json} (hfits : Fits depth v) {text : List UInt8}
    (h : Spelled v text) : ReadsAs (value depth) v text := by
  refine ⟨h.opens hfits, ?_⟩
  induction hfits generalizing text with
  | null =>
      cases h
      exact fun hskip _ => ⟨.null, rfl, finds_word _ .null hskip⟩
  | @bool _ b =>
      cases h
      exact fun hskip _ => ⟨.bool b, rfl, finds_word _ (.bool b) hskip⟩
  | number hn =>
      cases h
      exact fun hskip hend => finds_number _ hn hskip hend
  | string =>
      cases h with
      | string hquoted => exact fun hskip _ => ⟨_, rfl, finds_string hquoted hskip⟩
  | array hitems ih =>
      cases h with
      | array hspelled =>
          intro s rest hskip _
          obtain ⟨found, hfound⟩ := finds_items
            (fun v hv text ht => ⟨ht.opens (hitems v hv), ih v hv ht⟩) hspelled rest
          exact ⟨.array found, rfl, finds_array hfound hskip⟩
  | object hmembers ih =>
      cases h with
      | object hspelled =>
          intro s rest hskip _
          obtain ⟨found, -, hfound⟩ := finds_spelled_members
            (fun m hm text ht => ⟨ht.opens (hmembers m hm), ih m hm ht⟩) hspelled rest
          exact ⟨.object found, rfl, finds_object hfound hskip⟩

/-- An object that fits is read from any text that spells it, with the same names and strings. -/
theorem read_of_spells {members : List (String × Json)} (hfits : Fits maxDepth (.object members))
    {message : String} (h : Spells message (.object members)) :
    ∃ found, strings found = strings members ∧ read message = .ok (.object found) := by
  obtain ⟨before, text, after, hbefore, hspelled, hafter, hmessage⟩ := h
  cases hspelled with
  | @object _ bytes hmembers =>
      cases hfits with
      | object hfits =>
          obtain ⟨found, hsame, hfound⟩ := finds_spelled_members
            (fun m hm text ht => reads_as_spelled (hfits m hm) ht) hmembers after
          have hskip : skipSpace (before ++ (123 :: bytes ++ after)) = 123 :: (bytes ++ after) := by
            rw [skip_space_gap hbefore]
            exact skip_space_of_token rfl _
          obtain ⟨hshorter, hok⟩ := finds_object hfound hskip
          have hend : skipSpace after = [] := by
            rw [← List.append_nil after, skip_space_gap hafter]
            rfl
          refine ⟨found, hsame, ?_⟩
          rw [read, hmessage, readBytes, maxDepth]
          simp only [hok, hend]

end EngineLink.Json
