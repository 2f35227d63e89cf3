import EngineLink.Binary64.Basic

/-!
# JSON values

A value of the JSON data format. An object keeps its members in order and a later member hides
an earlier one of the same name.
-/

namespace EngineLink

/-- A number: an integer as it is, any other as a floating-point number. -/
inductive Json.Number
  | integer (n : Int)
  | float (x : Binary64)
  deriving DecidableEq

/-- A JSON value. -/
inductive Json
  | null
  | bool (b : Bool)
  | number (n : Json.Number)
  | string (s : String)
  | array (items : List Json)
  | object (members : List (String × Json))

namespace Json

/-- The value of the last member of a name, if the value is an object that has one. -/
def member? (name : String) : Json → Option Json
  | object members => members.reverse.lookup name
  | _ => none

/-- The text of a string. -/
def asString? : Json → Option String
  | string s => some s
  | _ => none

/-- A floating-point number as a value; one that is not finite has none and is null. -/
def ofBinary64 (x : Binary64) : Json :=
  if x.isFinite then number (.float x) else null

/-- An integer as a value. -/
def ofInt (n : Int) : Json :=
  number (.integer n)

end Json

end EngineLink
