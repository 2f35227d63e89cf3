import EngineLink.Json.Printer
import EngineLink.Program.LogFilter
import EngineLink.Program.Output
import Std.Internal.UV.Signal
import Std.Time.DateTime.Timestamp

/-!
# The terminal

Results go to the standard output, log events and failures to the standard error output.
-/

namespace EngineLink.Host

/-- The number of seconds since the start of 1970, as text. -/
def now : IO String := do
  return Text.ofInt (← Std.Time.Timestamp.now).toSecondsSinceUnixEpoch.toInt

/-- A task that ends when the user interrupts the program. -/
def interruption : IO (Task Unit) := do
  let next ← (← Std.Internal.UV.Signal.mk 2 false).next
  return next.result?.map fun _ => ()

/-- How a program prints. -/
structure Console where
  format : OutputFormat
  filter : List LogFilter.Directive
  logFormat : LogFormat

namespace Console

/-- Prints a text at once. -/
def print (_ : Console) (text : String) : IO Unit := do
  let out ← IO.getStdout
  out.putStr text
  out.flush

/-- A log event on one line. -/
def line (c : Console) (e : Log.Event) : String :=
  match c.logFormat with
  | .text => " ".intercalate (e.level.label :: e.message :: e.fields.map fun f => f.1 ++ "=" ++ f.2)
  | .json =>
    Json.compact (.object
      ([("level", .string e.level.label), ("message", .string e.message)] ++
        [("fields", .object (e.fields.map fun f => (f.1, .string f.2)))]))

/-- Logs the events that the filter lets through. -/
def log (c : Console) (events : List Log.Event) : IO Unit := do
  for e in events do
    if LogFilter.passes c.filter e then IO.eprintln (c.line e)

end Console

end EngineLink.Host
