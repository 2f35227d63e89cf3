import EngineLink.Command.Envelope
import EngineLink.Proofs.Json.Spellings

/-!
# Commands and the members of an object

A command is taken from the last member of each of its two names, and from nothing else: not from
earlier members of these names, not from members inside other values, and not from how the object
is spelled. Read `LastMember` first; `parse_of_members` is the result.
-/

namespace EngineLink

/-- The last member of a name has this value. -/
def LastMember (members : List (String × Json)) (name : String) (v : Json) : Prop :=
  ∃ before after, members = before ++ (name, v) :: after ∧ ∀ m ∈ after, m.1 ≠ name

/-- The last member of a name is the first one from behind. -/
theorem lookup_reverse_eq_some_iff {members : List (String × Json)} {name : String} {v : Json} :
    members.reverse.lookup name = some v ↔ LastMember members name v := by
  rw [List.lookup_eq_some_iff]
  constructor
  · rintro ⟨after, before, hmembers, hnone⟩
    refine ⟨before.reverse, after.reverse, ?_, fun m hm => ?_⟩
    · rw [← List.reverse_reverse members, hmembers]
      simp
    · exact fun h => bne_iff_ne.1 (hnone m (List.mem_reverse.1 hm)) h.symm
  · rintro ⟨before, after, rfl, hnone⟩
    refine ⟨after.reverse, before.reverse, by simp, fun m hm => ?_⟩
    exact bne_iff_ne.2 fun h => hnone m (List.mem_reverse.1 hm) h.symm

namespace Envelope

/-- Only the names of members and their strings decide what a look-up gives. -/
theorem lookup_strings (members : List (String × Json)) (name : String) :
    (Json.strings members).lookup name = (members.lookup name).map Json.asString? := by
  induction members with
  | nil => rfl
  | cons m members ih =>
      obtain ⟨other, v⟩ := m
      simp only [Json.strings, List.map_cons, List.lookup_cons] at ih ⊢
      split
      · rfl
      · exact ih

/-- A field is looked up among the last members of an object. -/
theorem field_of_strings (members : List (String × Json)) (name : String) :
    field (.object members) name = match ((Json.strings members).reverse.lookup name).join with
      | some text => .ok text
      | none => .error (.missingField name) := by
  have hreverse : (Json.strings members).reverse = Json.strings members.reverse :=
    List.map_reverse.symm
  rw [hreverse, lookup_strings, field, Json.member?]
  cases members.reverse.lookup name with
  | none => rfl
  | some v => rfl

/-- Only a string is taken as a string. -/
theorem as_string_eq_some_iff {v : Json} {text : String} :
    v.asString? = some text ↔ v = .string text := by
  cases v <;> simp [Json.asString?]

/-- A part of a command is the string of the last member of its name. -/
theorem string_of_member {members : List (String × Json)} {name text : String} :
    ((Json.object members).member? name).bind Json.asString? = some text ↔
      LastMember members name (.string text) := by
  simp only [Option.bind_eq_some_iff, as_string_eq_some_iff, exists_eq_right, Json.member?,
    lookup_reverse_eq_some_iff]

section
variable {members : List (String × Json)} {name : String}

/-- A part of a command is there if the last member of its name is a string. -/
theorem field_eq_ok_iff {text : String} :
    field (.object members) name = .ok text ↔ LastMember members name (.string text) := by
  rw [← string_of_member, field]
  cases ((Json.object members).member? name).bind Json.asString? <;> simp

/-- A part of a command that is not there is missed by its name. -/
theorem field_eq_error_iff {e : EnvelopeError} : field (.object members) name = .error e ↔
    (¬∃ text, LastMember members name (.string text)) ∧ .missingField name = e := by
  simp only [← string_of_member, field]
  cases ((Json.object members).member? name).bind Json.asString? <;> simp

end

section
variable {value : Json}

/-- A value is a command exactly if it has both fields. -/
theorem of_json_eq_ok_iff {e : Envelope} :
    ofJson value = .ok e ↔ field value "node" = .ok e.node ∧ field value "cmd" = .ok e.cmd := by
  obtain ⟨node, cmd⟩ := e
  rw [ofJson]
  cases field value "node" with
  | error missing => exact ⟨nofun, fun h => nomatch h.1⟩
  | ok node' =>
      cases field value "cmd" with
      | error missing => exact ⟨nofun, fun h => nomatch h.2⟩
      | ok cmd' =>
          show Except.ok (Envelope.mk node' cmd') = .ok ⟨node, cmd⟩ ↔ _
          simp only [Except.ok.injEq, mk.injEq]

/-- The node is looked for first. -/
theorem of_json_eq_error_iff {e : EnvelopeError} :
    ofJson value = .error e ↔ field value "node" = .error e ∨
      (∃ node, field value "node" = .ok node) ∧ field value "cmd" = .error e := by
  rw [ofJson]
  cases field value "node" with
  | error missing =>
      show Except.error missing = .error e ↔ _
      simp
  | ok node =>
      cases field value "cmd" with
      | error missing =>
          show Except.error missing = .error e ↔ _
          simp
      | ok cmd =>
          show Except.ok (Envelope.mk node cmd) = .error e ↔ _
          simp

end

/-- A message that spells an object is taken as the object, however it spells it. -/
theorem parse_of_spells {members : List (String × Json)}
    (hfits : Json.Fits Json.maxDepth (.object members)) {message : String}
    (hspells : Json.Spells message (.object members)) :
    parse message = ofJson (.object members) := by
  obtain ⟨found, hsame, hread⟩ := Json.read_of_spells hfits hspells
  rw [parse, hread]
  show ofJson (.object found) = _
  simp only [ofJson, field_of_strings, hsame]

/-- The compact text of an object is one of its spellings, and from every spelling the command is
taken from the last member of each name: it is there exactly if both are strings, otherwise the node
is missed, or the command if there is a node. No spelling is refused as a text. -/
theorem parse_of_members {members : List (String × Json)}
    (hfits : Json.Fits Json.maxDepth (.object members)) :
    Json.Spells (Json.object members).compact (.object members) ∧
      ∀ message, Json.Spells message (.object members) →
        (∀ e : Envelope, parse message = .ok e ↔ LastMember members "node" (.string e.node) ∧
          LastMember members "cmd" (.string e.cmd)) ∧
        (parse message = .error (.missingField "node") ↔
          ¬∃ text, LastMember members "node" (.string text)) ∧
        (parse message = .error (.missingField "cmd") ↔
          (∃ text, LastMember members "node" (.string text)) ∧
            ¬∃ text, LastMember members "cmd" (.string text)) ∧
        ∀ fault, parse message ≠ .error (.malformed fault) := by
  refine ⟨Json.spells_compact _, fun message hspells => ?_⟩
  rw [parse_of_spells hfits hspells]
  refine ⟨fun e => ?_, ?_, ?_, fun fault => ?_⟩
  · rw [of_json_eq_ok_iff, field_eq_ok_iff, field_eq_ok_iff]
  · rw [of_json_eq_error_iff, field_eq_error_iff, field_eq_error_iff]
    simp
  · rw [of_json_eq_error_iff, field_eq_error_iff, field_eq_error_iff]
    simp [field_eq_ok_iff]
  · rw [Ne, of_json_eq_error_iff, field_eq_error_iff, field_eq_error_iff]
    simp

section
open Json

/-- An earlier node, the string of another object, an escape in a name and white space change
nothing. -/
theorem parse_of_members_of_escaped_name :
    parse ("\x7b\"node\":1,\"x\":\x7b\"cmd\":\"no\"\x7d, " ++
      "\"n\\u006fde\" : \"arm\",\"cmd\":\"go\"\x7d\n") = .ok ⟨"arm", "go"⟩ := by
  have hone : Fits 126 (.number (.integer 1)) := .number ⟨by decide, by decide⟩
  have hinner : Fits 126 (.object [("cmd", .string "no")]) :=
    .object (List.forall_mem_singleton.2 .string)
  have hfits : Fits maxDepth (.object [("node", .number (.integer 1)),
      ("x", .object [("cmd", .string "no")]), ("node", .string "arm"), ("cmd", .string "go")]) :=
    .object (List.forall_mem_cons.2 ⟨hone, List.forall_mem_cons.2 ⟨hinner,
      List.forall_mem_cons.2 ⟨.string, List.forall_mem_singleton.2 .string⟩⟩⟩)
  have hname : Quoted "node".toList [110, 92, 117, 48, 48, 54, 102, 100, 101, 34] :=
    .cons (.plain (by decide) (by decide) (by decide)) <|
      .cons (.code ⟨48, 48, 54, 102, rfl, by decide⟩) <|
      .cons (.plain (by decide) (by decide) (by decide)) <|
      .cons (.plain (by decide) (by decide) (by decide)) .nil
  have hspace : Gap [32] := List.forall_mem_singleton.2 rfl
  have hnewline : Gap [10] := List.forall_mem_singleton.2 rfl
  have hend : MembersSpelled false [("cmd", .string "go")] _ :=
    .printed false "cmd" (spelled_chars _) (.nil gap_nil)
  have hnode : MembersSpelled false [("node", .string "arm"), ("cmd", .string "go")] _ :=
    @MembersSpelled.cons false "node" _ _ [] [32] _ [32] [32] _ _ gap_nil hspace hname hspace hspace
      (spelled_chars _) hend
  have hmembers := MembersSpelled.printed true "node" (spelled_chars (.number (.integer 1)))
    (.printed false "x" (spelled_chars (.object [("cmd", .string "no")])) hnode)
  refine (((parse_of_members hfits).2 _ ⟨[], _, [10], gap_nil, .object hmembers, hnewline, ?_⟩).1
    ⟨"arm", "go"⟩).2 ⟨⟨[_, _], [_], rfl, ?_⟩, ⟨[_, _, _], [], rfl, nofun⟩⟩
  · decide +kernel
  · exact List.forall_mem_singleton.2 (by decide)

end

end Envelope

end EngineLink
