import EngineLink.Decimal.Style
import EngineLink.Json.Basic
import EngineLink.Text.Utf8

/-!
# The compact text of a JSON value

No space between tokens, members in their order, only the characters escaped that must be, and
numbers by the fewest digits that read back.
-/

namespace EngineLink.Json

/-- A control character that has no short escape, as a code of four hexadecimal digits. -/
def controlEscape (c : Char) : List Char :=
  '\\' :: 'u' :: '0' :: '0' :: Text.hexByte (UInt8.ofNat c.toNat)

/-- A character inside a string. -/
def escaped (c : Char) : List Char :=
  if c = '"' then ['\\', '"']
  else if c = '\\' then ['\\', '\\']
  else if c = '\n' then ['\\', 'n']
  else if c = '\r' then ['\\', 'r']
  else if c = '\t' then ['\\', 't']
  else if c.toNat = 8 then ['\\', 'b']
  else if c.toNat = 12 then ['\\', 'f']
  else if c.toNat < 32 then controlEscape c
  else [c]

/-- A string between quotes. -/
def stringChars (s : String) : List Char :=
  '"' :: (s.toList.flatMap escaped ++ ['"'])

/-- Numbers are written positionally from `0.00001` up to sixteen digits before the point. -/
def floatStyle : Decimal.Style := ⟨-5, 15, true⟩

/-- The text of a number. One that is not finite has none and is written as null. -/
def Number.chars : Number → List Char
  | .integer n => Text.intChars n
  | .float x => (floatStyle.chars? x).getD ['n', 'u', 'l', 'l']

mutual

/-- The compact text of a value. -/
def chars : Json → List Char
  | null => ['n', 'u', 'l', 'l']
  | bool true => ['t', 'r', 'u', 'e']
  | bool false => ['f', 'a', 'l', 's', 'e']
  | number n => n.chars
  | string s => stringChars s
  | array items => '[' :: (itemsChars items ++ [']'])
  | object members => '\x7b' :: (membersChars members ++ ['\x7d'])

/-- The items of an array between commas. -/
def itemsChars : List Json → List Char
  | [] => []
  | item :: rest => chars item ++ laterItemsChars rest

/-- Items that each follow a comma. -/
def laterItemsChars : List Json → List Char
  | [] => []
  | item :: rest => ',' :: (chars item ++ laterItemsChars rest)

/-- The members of an object between commas. -/
def membersChars : List (String × Json) → List Char
  | [] => []
  | (name, value) :: rest =>
    stringChars name ++ ':' :: (chars value ++ laterMembersChars rest)

/-- Members that each follow a comma. -/
def laterMembersChars : List (String × Json) → List Char
  | [] => []
  | (name, value) :: rest =>
    ',' :: (stringChars name ++ ':' :: (chars value ++ laterMembersChars rest))

end

/-- The compact text of a value as a string. -/
def compact (v : Json) : String :=
  String.ofList v.chars

end EngineLink.Json
