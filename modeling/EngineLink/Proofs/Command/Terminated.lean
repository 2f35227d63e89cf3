import EngineLink.Proofs.Command.Wire
import EngineLink.Proofs.Json.Nulls

/-!
# Commands that end at a zero byte

On the bus a command is its bytes and a final zero, and whoever takes it as text reads up to the
first zero. That is the whole command unless it has a null character, which ends it early, and no
command has one unless its message has the escape for it. Read `upToZero` first;
`Envelope.up_to_zero_of_parse` is the result.
-/

namespace EngineLink

/-- The bytes in front of the first zero, which is how a text that ends with a zero is read. -/
def upToZero (bytes : List UInt8) : List UInt8 :=
  bytes.takeWhile (· ≠ 0)

/-- A text that starts with a zero is seen as empty. -/
theorem up_to_zero_cons_zero (rest : List UInt8) : upToZero (0 :: rest) = [] :=
  rfl

/-- Bytes without a zero are seen in full, and then what is seen of the rest. -/
theorem up_to_zero_append {bytes : List UInt8} (h : 0 ∉ bytes) (rest : List UInt8) :
    upToZero (bytes ++ rest) = bytes ++ upToZero rest := by
  rw [upToZero, List.takeWhile_append_of_pos]
  · rfl
  · intro b hb
    exact decide_eq_true fun hzero => h (hzero ▸ hb)

/-- No zero is in what is seen in front of the first one. -/
theorem zero_not_mem_up_to_zero (bytes : List UInt8) : 0 ∉ upToZero bytes := by
  intro hzero
  have hpassed := List.mem_takeWhile_imp hzero
  exact of_decide_eq_true hpassed rfl

/-! ## Zeros among the bytes of a text -/

/-- The null character is a single zero. -/
theorem utf8_null : String.utf8EncodeChar '\x00' = [0] :=
  rfl

/-- A text has a zero among its bytes exactly if it has the null character. -/
theorem zero_mem_utf8_chars_iff (cs : List Char) : 0 ∈ Text.utf8Chars cs ↔ '\x00' ∈ cs := by
  rw [Text.utf8Chars, List.mem_flatMap]
  constructor
  · rintro ⟨c, hc, hzero⟩
    rwa [← Json.eq_null_of_zero_mem hzero]
  · intro hnull
    exact ⟨_, hnull, utf8_null ▸ List.mem_singleton_self 0⟩

/-- As many bytes are zero as characters are null characters. -/
theorem count_zero_utf8_chars (cs : List Char) :
    (Text.utf8Chars cs).count 0 = cs.count '\x00' := by
  induction cs with
  | nil => rfl
  | cons c cs ih =>
      rw [Text.utf8Chars, List.flatMap_cons, List.count_append, ← Text.utf8Chars, ih]
      by_cases hc : c = '\x00'
      · rw [hc, utf8_null, List.count_cons_self, List.count_cons_self, List.count_nil]
        omega
      · have hnone : 0 ∉ String.utf8EncodeChar c := mt Json.eq_null_of_zero_mem hc
        rw [List.count_eq_zero_of_not_mem hnone, List.count_cons_of_ne hc, Nat.zero_add]

/-- In front of the first zero stand the characters in front of the first null character. -/
theorem up_to_zero_utf8_chars (cs : List Char) (rest : List UInt8) :
    upToZero (Text.utf8Chars cs ++ 0 :: rest) = Text.utf8Chars (cs.takeWhile (· ≠ '\x00')) := by
  induction cs with
  | nil => rfl
  | cons c cs ih =>
      rw [Text.utf8Chars, List.flatMap_cons, List.append_assoc, ← Text.utf8Chars]
      by_cases hc : c = '\x00'
      · rw [hc, utf8_null, List.singleton_append, up_to_zero_cons_zero,
          List.takeWhile_cons_of_neg (by decide)]
        rfl
      · have hnone : 0 ∉ String.utf8EncodeChar c := mt Json.eq_null_of_zero_mem hc
        have hfront : (c :: cs).takeWhile (· ≠ '\x00') = c :: cs.takeWhile (· ≠ '\x00') :=
          List.takeWhile_cons_of_pos (decide_eq_true hc)
        rw [up_to_zero_append hnone, ih, hfront]
        rfl

/-! ## Commands -/

namespace Envelope

/-- The command is read back from its bytes unless it has a null character. -/
theorem up_to_zero_payload_iff (e : Envelope) :
    upToZero e.payload = Text.utf8 e.cmd ↔ '\x00' ∉ e.cmd.toList := by
  constructor
  · intro hwhole hnull
    have hzero : 0 ∈ Text.utf8 e.cmd := (zero_mem_utf8_chars_iff _).2 hnull
    rw [← hwhole] at hzero
    exact zero_not_mem_up_to_zero _ hzero
  · intro hnull
    have hnone : 0 ∉ Text.utf8 e.cmd := mt (zero_mem_utf8_chars_iff _).1 hnull
    rw [payload, up_to_zero_append hnone, up_to_zero_cons_zero, List.append_nil]

/-- The bytes of a command have a zero for each null character in it, and one behind them. -/
theorem count_zero_payload (e : Envelope) :
    e.payload.count 0 = e.cmd.toList.count '\x00' + 1 := by
  rw [payload, List.count_append, Text.utf8, count_zero_utf8_chars]
  rfl

/-- The string of a member has a null character only if the value has one. -/
theorem has_null_of_field {v : Json} {name text : String} (h : field v name = .ok text)
    (hnull : '\x00' ∈ text.toList) : v.HasNull := by
  unfold field at h
  split at h
  · next found hfound =>
      cases h
      obtain ⟨m, hm, hstring⟩ := Option.bind_eq_some_iff.1 hfound
      refine .of_member hm ?_
      unfold Json.asString? at hstring
      split at hstring
      · cases hstring
        exact .string hnull
      · cases hstring
  · cases h

/-- A message that is read as a command with a null character has the escape for it. -/
theorem null_escape_of_parse {message : String} {e : Envelope} (h : parse message = .ok e)
    (hnull : '\x00' ∈ e.cmd.toList) : Json.nullEscape <:+: Text.utf8 message := by
  unfold parse at h
  split at h
  · cases h
  · next v hv =>
      unfold ofJson at h
      cases hnode : field v "node" with
      | error fault =>
          rw [hnode] at h
          cases h
      | ok node =>
          cases hcmd : field v "cmd" with
          | error fault =>
              rw [hnode, hcmd] at h
              cases h
          | ok cmd =>
              rw [hnode, hcmd] at h
              cases h
              exact Json.null_escape_of_read hv (has_null_of_field hcmd hnull)

/-- Up to the first zero byte a receiver finds the command up to its first null character: the
whole command only if it has none, which is if the final zero is the only one. A command has one
only if its message has the escape for it. -/
theorem up_to_zero_of_parse {message : String} {e : Envelope} (h : parse message = .ok e) :
    upToZero e.payload = Text.utf8Chars (e.cmd.toList.takeWhile (· ≠ '\x00')) ∧
      (upToZero e.payload = Text.utf8 e.cmd ↔ '\x00' ∉ e.cmd.toList) ∧
      (e.payload.count 0 = 1 ↔ '\x00' ∉ e.cmd.toList) ∧ e.payload.getLast? = some 0 ∧
      ('\x00' ∈ e.cmd.toList → Json.nullEscape <:+: Text.utf8 message) := by
  refine ⟨up_to_zero_utf8_chars _ [], up_to_zero_payload_iff e, ?_, List.getLast?_concat,
    null_escape_of_parse h⟩
  rw [count_zero_payload, ← List.count_eq_zero]
  omega

/-- A command in two parts with a null character between them. -/
def twoParts : Envelope :=
  ⟨"n", "A\x00B"⟩

/-- A null character that is written as an escape gets into the command. -/
theorem parse_two_parts :
    parse "\x7b\"node\":\"n\",\"cmd\":\"A\\u0000B\"\x7d" = .ok twoParts := by
  have hcompact : twoParts.toJson.compact = "\x7b\"node\":\"n\",\"cmd\":\"A\\u0000B\"\x7d" := by
    decide +kernel
  rw [← hcompact]
  exact parse_compact twoParts

/-- The receiver of a command in two parts finds the first one. -/
theorem up_to_zero_of_two_parts :
    parse "\x7b\"node\":\"n\",\"cmd\":\"A\\u0000B\"\x7d" = .ok twoParts ∧
      upToZero twoParts.payload = Text.utf8 "A" ∧ twoParts.payload.count 0 ≠ 1 ∧
      Json.nullEscape <:+: Text.utf8 "\x7b\"node\":\"n\",\"cmd\":\"A\\u0000B\"\x7d" := by
  have hnull : '\x00' ∈ twoParts.cmd.toList := by decide
  obtain ⟨hfront, -, hsingle, -, hescape⟩ := up_to_zero_of_parse parse_two_parts
  refine ⟨parse_two_parts, hfront.trans (by decide), ?_, hescape hnull⟩
  intro hcount
  exact hsingle.1 hcount hnull

/-- Not every accepted message gives its receiver the command that it holds. -/
theorem accepts_cut_command : ¬ ∀ message e, parse message = .ok e →
    upToZero e.payload = Text.utf8 e.cmd ∧ e.payload.count 0 = 1 := by
  intro hall
  have hwhole := (hall _ _ parse_two_parts).1
  have hnull := (up_to_zero_payload_iff twoParts).1 hwhole
  exact hnull (by decide)

end Envelope

end EngineLink
