import EngineLink.Blackboard.State
import EngineLink.Program.Invocation
import EngineLink.Telemetry.DataPoint
import EngineLink.Text.Table

/-!
# What the commands print

A message, a data point and a state of the blackboard, each as one line of JSON, as a table or
as plain lines. Whatever is printed ends in a line feed. JSON carries the time of printing in
seconds, as text.
-/

namespace EngineLink.Output

/-- A text as printed lines. -/
def printed (text : String) : String :=
  text ++ "\n"

/-- A JSON object of one line, with the time of printing as its last member. -/
def stamped (time : String) (members : List (String × Json)) : String :=
  printed (Json.object (members ++ [("timestamp", .string time)])).compact

/-- A number as a JSON value. -/
def natJson (n : Nat) : Json :=
  .ofInt n

/-- A message that a client sent, with its number. -/
def message (format : OutputFormat) (time : String) (sequence : Nat) (text : String) : String :=
  let size := (Text.utf8 text).length
  match format with
  | .json =>
    stamped time
      [("kind", .string "message-received"), ("sequence", natJson sequence),
        ("size", natJson size), ("message", .string text)]
  | .table =>
    printed (Text.Table.text
      ⟨["SEQ", "SIZE", "MESSAGE"], [[Text.ofNat sequence, Text.ofNat size, text]]⟩)
  | .pretty =>
    printed ("#" ++ Text.ofNat sequence ++ " size=" ++ Text.ofNat size ++ " message=" ++ text)

/-- The time of a data point as a JSON value. -/
def timeJson (p : Telemetry.DataPoint) : Json :=
  match p.absTime? with
  | some x => .ofBinary64 x
  | none => .null

/-- A data point with its number. -/
def dataPoint (format : OutputFormat) (time : String) (sequence : Nat)
    (p : Telemetry.DataPoint) : String :=
  match format with
  | .json =>
    stamped time
      [("kind", .string "data-point"), ("sequence", natJson sequence), ("abs_time", timeJson p),
        ("lines", p.linesJson), ("values", p.valuesJson)]
  | .table =>
    printed (Text.Table.text
      ⟨["KEY", "VALUE"], p.sortedValues.map fun entry => [entry.1, entry.2]⟩)
  | .pretty => printed p.display

/-- The entries of a state in the order of their names, every value as JSON text. -/
def fieldTexts (s : Blackboard.State) (view : Blackboard.View) : List (String × String) :=
  ((s.entries view).map fun entry => (entry.1, entry.2.compact)).mergeSort
    fun a b => decide (¬ b.1 < a.1)

/-- A state of the blackboard of a name. -/
def blackboard (format : OutputFormat) (time name : String) (view : Blackboard.View)
    (s : Blackboard.State) : String :=
  match format with
  | .json =>
    stamped time
      [("kind", .string "blackboard-snapshot"), ("name", .string name),
        ("state", .object (s.entries view))]
  | .table =>
    printed (Text.Table.text
      ⟨["FIELD", "VALUE"], (fieldTexts s view).map fun entry => [entry.1, entry.2]⟩)
  | .pretty =>
    printed ("blackboard " ++ name) ++
      String.join ((fieldTexts s view).map fun entry =>
        printed ("  " ++ entry.1 ++ " = " ++ entry.2))

end EngineLink.Output
