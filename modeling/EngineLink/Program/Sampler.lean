import EngineLink.Program.Exit
import EngineLink.Program.Invocation
import EngineLink.Telemetry.DataPoint
import EngineLink.Telemetry.Link

/-!
# The telemetry command

Looks at the latest data point at fixed intervals and prints it if it is a new one, until the
stream has ended, the flag is cleared or as many points as asked for are printed.

Read `Sampler.settings` and `Sampler.look` first.
-/

namespace EngineLink

/-- What a telemetry command was asked for, read. -/
structure TelemetrySettings where
  link : Telemetry.LinkConfig
  interval : Duration
  deriving DecidableEq

/-- The telemetry command between two samples. -/
structure Sampler where
  /-- How many data points were printed. -/
  printed : Nat
  /-- The data point printed last. -/
  last : Option Telemetry.DataPoint
  deriving DecidableEq

namespace Sampler

/-- A span of time that the user wrote. -/
def span (text : String) : Except CommandFailure Duration :=
  (Duration.parse text).mapError Exit.ofDuration

/-- Reads what the command is asked for: the interval first, then the wait between attempts.
Zero is no port for commands. -/
def settings (r : TelemetryRequest) : Except CommandFailure TelemetrySettings := do
  let interval ← span r.interval
  let wait ← span r.retryWait
  let link := (Telemetry.LinkConfig.ofHost r.host r.port).withRetry ⟨r.maxAttempts, wait⟩
  let link := match r.commandPort with
    | some port => if port = 0 then link else link.withCommandPort port
    | none => link
  return ⟨link, interval⟩

/-- The failure of a command that cannot connect. -/
def connectFailure (e : ProviderError) : CommandFailure :=
  Exit.ofProvider "connect failed" e

/-- The exit status after commands of which each was sent or not. -/
def statusOf (sent : List Bool) : Nat :=
  if sent.all id then Exit.success else Exit.failure

/-- A command that has printed nothing. -/
def start : Sampler :=
  ⟨0, none⟩

/-- Whether the command goes on. -/
inductive Progress
  | ongoing
  /-- As many data points as asked for are printed. -/
  | counted
  /-- The stream has ended. -/
  | ended
  deriving DecidableEq

/-- What one sample gave. -/
structure Look where
  sampler : Sampler
  print : Option (Nat × Telemetry.DataPoint)
  progress : Progress
  deriving DecidableEq

/-- Looks at a data point, with whether the stream was still read just before. A point is printed
if it has a line and is not the one printed last. -/
def look (count : Option Nat) (s : Sampler) (reading : Bool) (p : Telemetry.DataPoint) : Look :=
  let onward := if reading then Progress.ongoing else .ended
  if !p.isEmpty && s.last != some p then
    let number := s.printed + 1
    ⟨⟨number, some p⟩, some (number, p), if count.any (· ≤ number) then .counted else onward⟩
  else ⟨s, none, onward⟩

/-- Looks at samples one after another while the command goes on. Gives what is printed. -/
def looks (count : Option Nat) : Sampler → List (Bool × Telemetry.DataPoint) →
    List (Nat × Telemetry.DataPoint)
  | _, [] => []
  | s, (reading, p) :: rest =>
    let first := s.look count reading p
    first.print.toList ++
      match first.progress with
      | .ongoing => looks count first.sampler rest
      | _ => []

/-- The log event of a stream that has ended. -/
def endedEvent (s : Sampler) : Log.Event :=
  ⟨.info, "telemetry stream ended", [("printed", Text.ofNat s.printed)]⟩

end Sampler

end EngineLink
