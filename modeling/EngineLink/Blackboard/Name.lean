import EngineLink.Blackboard.Error
import EngineLink.Text.Utf8

/-!
# Names of shared segments

A name is written with or without a slash in front; the segment has it with one. Behind the
slash a name is not empty and has no further slash and no zero character, and all of it has at
most 255 bytes.
-/

namespace EngineLink.Blackboard

/-- The longest name with its slash, in bytes. -/
def maxNameLength : Nat := 255

/-- The name of the blackboard unless another one is given. -/
def standardName : String := "Blackboard"

/-- A name with its slash in front. -/
def slashed (name : List Char) : List Char :=
  match name with
  | '/' :: _ => name
  | _ => '/' :: name

/-- The full name of a segment, or what is wrong with the name. -/
def normalize (name : String) : Except MemoryError String :=
  let full := slashed name.toList
  let text := String.ofList full
  if full.length = 1 then .error (.invalidName "segment name is empty")
  else if (full.drop 1).contains '/' then
    .error (.invalidName ("segment name cannot contain '/' after prefix: " ++ text))
  else if maxNameLength < (Text.utf8Chars full).length then
    .error (.invalidName ("segment name too long (max 255): " ++ text))
  else .ok text

/-- The full name of a segment as the system takes it, which ends at a zero character. -/
def systemName (name : String) : Except MemoryError String :=
  match normalize name with
  | .error e => .error e
  | .ok full =>
    if full.toList.contains (Char.ofNat 0) then .error (.invalidName full) else .ok full

end EngineLink.Blackboard
