import EngineLink.Proofs.Command.Members
import EngineLink.Proofs.Framing.LineStream

/-!
# Commands as lines

A client sends a command as the compact text of its JSON value and a line feed. The text holds no
line feed of its own, and the command is parsed back from it. Read `Envelope.parse_compact` and
`Envelope.line_feed_not_mem_line`.
-/

namespace EngineLink

namespace Json

/-- No character is written with a line feed inside a string. -/
theorem line_feed_not_mem_escaped (c : Char) : lineFeed ∉ Text.utf8Chars (escaped c) := by
  intro hmem
  rcases escaped_cases c with ⟨b, hbytes, hsimple⟩ | ⟨_, a, b, hbytes, hcode⟩ | ⟨hself, hplain⟩
  · rw [hbytes] at hmem
    simp only [List.mem_cons, List.not_mem_nil, or_false] at hmem
    rcases hmem with h | rfl
    · cases h
    · cases hsimple
  · rw [hbytes] at hmem
    simp only [List.mem_cons, List.not_mem_nil, or_false] at hmem
    -- a line feed is no digit of a code
    have hdigit : Text.hexValue? (Char.ofNat lineFeed.toNat) = none := rfl
    rcases hmem with h | h | h | h | rfl | rfl
    · cases h
    · cases h
    · cases h
    · cases h
    · cases hcode
    · cases ha : Text.hexValue? (Char.ofNat a.toNat) <;> simp [fourHex?, ha, hdigit] at hcode
  · rw [hself] at hmem
    exact (hplain _ hmem).2.2 (by decide)

/-- A string is written without a line feed. -/
theorem line_feed_not_mem_string_chars (s : String) :
    lineFeed ∉ Text.utf8Chars (stringChars s) := by
  have hinner : lineFeed ∉ Text.utf8Chars (s.toList.flatMap escaped) := by
    rw [Text.utf8Chars, List.flatMap_assoc, List.mem_flatMap]
    rintro ⟨c, _, hmem⟩
    exact line_feed_not_mem_escaped c hmem
  rw [stringChars, ← List.singleton_append, Text.utf8_chars_append, Text.utf8_chars_append,
    List.mem_append, List.mem_append]
  rintro (h | h | h)
  · revert h
    decide
  · exact hinner h
  · revert h
    decide

end Json

namespace Envelope

/-- The bytes of a command without the line feed that ends them. -/
def line (e : Envelope) : List UInt8 :=
  Text.utf8 e.toJson.compact

/-- The bytes that a client sends for commands. -/
def wire (es : List Envelope) : List UInt8 :=
  es.flatMap fun e => e.line ++ [lineFeed]

/-- A command is parsed back from its compact text. -/
theorem parse_compact (e : Envelope) : parse e.toJson.compact = .ok e := by
  have hfits : Json.Fits Json.maxDepth e.toJson :=
    .object (List.forall_mem_cons.2 ⟨.string, List.forall_mem_singleton.2 .string⟩)
  exact (parse_of_spells hfits (Json.spells_compact _)).trans rfl

/-- The bytes of a command. -/
theorem line_eq (e : Envelope) : e.line = Text.utf8Chars
    (['\x7b'] ++ (Json.stringChars "node" ++ ([':'] ++ (Json.stringChars e.node ++ ([','] ++
      (Json.stringChars "cmd" ++ ([':'] ++ (Json.stringChars e.cmd ++ ['\x7d'])))))))) := by
  rw [line, Text.utf8, Json.compact, String.toList_ofList]
  congr 1
  simp only [toJson, Json.chars, Json.membersChars, Json.laterMembersChars, List.cons_append,
    List.nil_append, List.append_assoc, List.append_nil]

/-- A command holds no line feed. -/
theorem line_feed_not_mem_line (e : Envelope) : lineFeed ∉ e.line := by
  rw [line_eq]
  simp only [Text.utf8_chars_append, List.mem_append, not_or]
  refine ⟨?_, Json.line_feed_not_mem_string_chars _, ?_, Json.line_feed_not_mem_string_chars _, ?_,
    Json.line_feed_not_mem_string_chars _, ?_, Json.line_feed_not_mem_string_chars _, ?_⟩
  all_goals decide

/-- The line of a command is not empty. -/
theorem line_ne_nil (e : Envelope) : e.line ≠ [] := by
  rw [line_eq, Text.utf8_chars_append]
  exact List.cons_ne_nil _ _

/-- A command that fits into the buffer of a slot is a message. -/
theorem line_message_line {e : Envelope} (h : e.line.length < lineCapacity) :
    lineMessage? e.line = some e.toJson.compact := by
  have hlength : e.line.length % lineCapacity = e.line.length := Nat.mod_eq_of_lt h
  have hpos := List.length_pos_iff.2 e.line_ne_nil
  have htext : Text.lossy e.line = e.toJson.compact := Text.lossy_utf8 _
  rw [lineMessage?, if_neg (by omega), hlength, List.rtake, Nat.sub_self, List.drop_zero, htext]

/-- A line buffer finds the commands that a client sends. -/
theorem messages_wire {es : List Envelope} (h : ∀ e ∈ es, e.line.length < lineCapacity) :
    LineNotice.messages (takeBytes [] (wire es)).2 = es.map fun e => e.toJson.compact := by
  have hwire : wire es = (es.map line).flatMap fun bytes => bytes ++ [lineFeed] := by
    rw [wire, List.flatMap_map]
  have hfree : ∀ bytes ∈ es.map line, lineFeed ∉ bytes := by
    intro bytes hbytes
    obtain ⟨e, _, rfl⟩ := List.mem_map.1 hbytes
    exact e.line_feed_not_mem_line
  have hmessages := (take_bytes_held_of [] (wire es)).2.1
  rw [held_of_nil, hwire, cut_lines _ hfree] at hmessages
  rw [hwire, hmessages, List.filterMap_map]
  clear hwire hfree hmessages
  induction es with
  | nil => rfl
  | cons e es ih =>
      have hrest := ih fun e he => h e (List.mem_cons_of_mem _ he)
      rw [List.filterMap_cons, Function.comp_apply, line_message_line (h e List.mem_cons_self),
        hrest, List.map_cons]

end Envelope

end EngineLink
