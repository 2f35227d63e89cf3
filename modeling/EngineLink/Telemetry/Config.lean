import EngineLink.Network.Dial
import EngineLink.Text.Literal

/-!
# Where the engine is reached

The host of the engine, the port of its telemetry stream, a port for commands if there is one,
and the policy for dialling both.
-/

namespace EngineLink.Telemetry

/-- How the engine is reached. -/
structure LinkConfig where
  host : String
  telemetryPort : Nat
  /-- The port that takes commands; without one there is no command channel. -/
  commandPort : Option Nat
  retry : RetryPolicy
  deriving DecidableEq

namespace LinkConfig

/-- The host that is meant if none is named. -/
def standardHost : String := "localhost"

/-- A telemetry stream without a command channel, dialled by the standard policy. -/
def ofHost (host : String) (port : Nat) : LinkConfig :=
  ⟨host, port, none, .standard⟩

/-- The same with a command channel. -/
def withCommandPort (c : LinkConfig) (port : Nat) : LinkConfig :=
  { c with commandPort := some port }

/-- The same with another policy. -/
def withRetry (c : LinkConfig) (retry : RetryPolicy) : LinkConfig :=
  { c with retry := retry }

/-- What is dialled for the telemetry stream. -/
def telemetryTarget (c : LinkConfig) : Dial.Target :=
  ⟨c.host, c.telemetryPort, c.retry⟩

/-- What is dialled for commands on a port. -/
def commandTarget (c : LinkConfig) (port : Nat) : Dial.Target :=
  ⟨c.host, port, c.retry⟩

/-- A configuration as shown to a developer. -/
def description (c : LinkConfig) : String :=
  let port := match c.commandPort with
    | some port => "Some(" ++ Text.ofNat port ++ ")"
    | none => "None"
  "SocketProviderConfig \x7b host: " ++ Text.literal c.host ++ ", telemetry_port: " ++
    Text.ofNat c.telemetryPort ++ ", command_port: " ++ port ++
    ", retry: RetryPolicy \x7b max_attempts: " ++ Text.ofNat c.retry.maxAttempts ++
    ", retry_wait: " ++ c.retry.wait.display ++ " \x7d \x7d"

end LinkConfig

end EngineLink.Telemetry
