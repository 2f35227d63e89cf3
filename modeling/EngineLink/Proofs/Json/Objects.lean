import EngineLink.Proofs.Json.Strings

/-!
# Reading items, members and values

A value is read as what stands at its first token. The items of an array and the members of an
object are read one after another up to the closing bracket; a member is its name, a colon and a
value.
-/

namespace EngineLink.Json

/-- In front of a token there is no space to skip. -/
theorem skip_space_of_token {b : UInt8} (h : isSpace b = false) (rest : List UInt8) :
    skipSpace (b :: rest) = b :: rest := by
  rw [skipSpace, List.dropWhile_cons_of_neg]
  rw [h]
  exact Bool.false_ne_true

/-! ## Items -/

/-- At the closing bracket there is no further item. -/
theorem finds_items_end {s rest : List UInt8} (hskip : skipSpace s = 93 :: rest)
    (item : ValueReader) (first : Bool) : Finds (items item first s) [] rest := by
  have hle := hskip ▸ skip_space_length_le s
  refine ⟨by simp only [List.length_cons] at hle; omega, ?_⟩
  rw [items]
  split
  · next h => cases hskip.symm.trans h
  · next h =>
      cases hskip.symm.trans h
      rfl

/-- One more item is read if a step leads to it. -/
theorem finds_items_next {item : ValueReader} {first : Bool} {b : UInt8}
    {s more t u rest : List UInt8} {v : Json} {vs : List Json} (hskip : skipSpace s = b :: more)
    (hopen : b ≠ 93) (hstep : toItem first b more = .ok t) (hitem : Finds (item t) v u)
    (hlater : Finds (items item false u) vs rest) : Finds (items item first s) (v :: vs) rest := by
  have hle := hskip ▸ skip_space_length_le s
  have hstepped := to_item_length_le hstep
  obtain ⟨hitemShorter, hitem⟩ := hitem
  obtain ⟨hlaterShorter, hlater⟩ := hlater
  refine ⟨by omega, ?_⟩
  rw [items]
  split
  · next h => cases hskip.symm.trans h
  · next c tail h =>
      cases hskip.symm.trans h
      rw [if_neg hopen]
      split
      · next heq => cases hstep.symm.trans heq
      · next heq =>
          cases hstep.symm.trans heq
          simp only [hitem, hlater]

/-! ## Members -/

/-- A colon is read, behind any white space. -/
theorem finds_colon {s rest : List UInt8} (hskip : skipSpace s = 58 :: rest) :
    Finds (colon s) () rest := by
  have hle := hskip ▸ skip_space_length_le s
  refine ⟨by simp only [List.length_cons] at hle; omega, ?_⟩
  rw [colon]
  split
  · next h => cases hskip.symm.trans h
  · next h =>
      cases hskip.symm.trans h
      rfl

/-- A member is read behind the opening quote of its name. -/
theorem finds_member {item : ValueReader} {s t u rest : List UInt8} {name : String} {v : Json}
    (hname : Finds (readString s) name t) (hcolon : skipSpace t = 58 :: u)
    (hvalue : Finds (item u) v rest) : Finds (member item s) (name, v) rest := by
  obtain ⟨hnameShorter, hname⟩ := hname
  obtain ⟨hcolonShorter, hcolon⟩ := finds_colon hcolon
  obtain ⟨hshorter, hok⟩ := hvalue
  refine ⟨by omega, ?_⟩
  rw [member, hname]
  simp only [hcolon, hok]

/-- At the closing brace there is no further member. -/
theorem finds_members_end {s rest : List UInt8} (hskip : skipSpace s = 125 :: rest)
    (item : ValueReader) (first : Bool) : Finds (members item first s) [] rest := by
  have hle := hskip ▸ skip_space_length_le s
  refine ⟨by simp only [List.length_cons] at hle; omega, ?_⟩
  rw [members]
  split
  · next h => cases hskip.symm.trans h
  · next h =>
      cases hskip.symm.trans h
      rfl

/-- One more member is read if a step leads to its name. -/
theorem finds_members_next {item : ValueReader} {first : Bool} {b : UInt8}
    {s more t u rest : List UInt8} {m : String × Json} {ms : List (String × Json)}
    (hskip : skipSpace s = b :: more) (hopen : b ≠ 125) (hname : toName first b more = .ok t)
    (hmember : Finds (member item t) m u) (hlater : Finds (members item false u) ms rest) :
    Finds (members item first s) (m :: ms) rest := by
  have hle := hskip ▸ skip_space_length_le s
  have hstepped := to_name_length_lt hname
  obtain ⟨hmemberShorter, hmember⟩ := hmember
  obtain ⟨hlaterShorter, hlater⟩ := hlater
  refine ⟨by omega, ?_⟩
  rw [members]
  split
  · next h => cases hskip.symm.trans h
  · next c tail h =>
      cases hskip.symm.trans h
      rw [if_neg hopen]
      split
      · next heq => cases hname.symm.trans heq
      · next heq =>
          cases hname.symm.trans heq
          simp only [hmember, hlater]

/-! ## Values -/

section
variable {b : UInt8} {s more rest : List UInt8} {v : Json} (hskip : skipSpace s = b :: more)
include hskip

/-- A value is read as what stands at its first token. -/
theorem finds_value_with {inner : Option ValueReader} (h : Finds (valueAt inner b more) v rest) :
    Finds (valueWith inner s) v rest := by
  have hle := hskip ▸ skip_space_length_le s
  obtain ⟨hshorter, hok⟩ := h
  refine ⟨hshorter.trans_le hle, ?_⟩
  rw [valueWith]
  split
  · next heq => cases hskip.symm.trans heq
  · next c tail heq =>
      cases hskip.symm.trans heq
      rw [hok]
      rfl

/-- However deep it may nest, a value is read as what stands at its first byte, if that does not
depend on what may stand inside. -/
theorem finds_value {depth : Nat} (h : ∀ inner, Finds (valueAt inner b more) v rest) :
    Finds (value depth s) v rest := by
  cases depth with
  | zero => exact finds_value_with hskip (h _)
  | succ depth => exact finds_value_with hskip (h _)

end

/-- At a quote stands a string. -/
theorem value_at_quote (inner : Option ValueReader) (rest : List UInt8) :
    valueAt inner 34 rest = match readString rest with
      | .error e => .error e
      | .ok t => .ok (t.behind 34 .string) := rfl

/-- At an opening bracket stands an array. -/
theorem value_at_bracket (item : ValueReader) (rest : List UInt8) :
    valueAt (some item) 91 rest = match items item true rest with
      | .error e => .error e
      | .ok t => .ok (t.behind 91 .array) := rfl

/-- At an opening brace stands an object. -/
theorem value_at_brace (item : ValueReader) (rest : List UInt8) :
    valueAt (some item) 123 rest = match members item true rest with
      | .error e => .error e
      | .ok t => .ok (t.behind 123 .object) := rfl

end EngineLink.Json
