import EngineLink.Command.Error
import EngineLink.Duration
import EngineLink.Telemetry.Error

/-!
# How the program ends

The status with which the program exits, and the mapping of every failure to a status and the
line that is printed for it. A failure of the system is told without the step at which it
happened; a host without address and a name that names no segment are told in full.
-/

namespace EngineLink

/-- A failed command: the exit status and what is printed. -/
structure CommandFailure where
  status : Nat
  message : String
  deriving DecidableEq

/-- The line that tells a failure. -/
def CommandFailure.line (e : CommandFailure) : String :=
  "error: " ++ e.message

namespace Exit

/-- The command did what it was asked to. -/
def success : Nat := 0

/-- The other side refused. -/
def failure : Nat := 1

/-- An address cannot be used, or a host has none. -/
def transport : Nat := 3

/-- The user may not do this. -/
def permissionDenied : Nat := 50

/-- A message holds no command. -/
def invalidData : Nat := 60

/-- The command was called wrongly. -/
def usage : Nat := 64

/-- The other side did not answer in time. -/
def timeout : Nat := 124

/-- Any other failure. -/
def internal : Nat := 125

/-- A failure at a step of the program. -/
def told (status : Nat) (context message : String) : CommandFailure :=
  ⟨status, context ++ ": " ++ message⟩

/-- The status of a failure of the system. -/
def systemStatus : ErrorKind → Nat
  | .permissionDenied => permissionDenied
  | .timedOut | .wouldBlock => timeout
  | .connectionRefused => failure
  | .addrInUse | .addrNotAvailable => transport
  | _ => internal

/-- The end of a command that a failure of the system stops. -/
def ofSystem (context : String) (e : SystemError) : CommandFailure :=
  told (systemStatus e.kind) context e.message

/-- The end of a command that cannot listen or dial. -/
def ofTransport (context : String) : TransportError → CommandFailure
  | e@(.resolve ..) => told transport context e.message
  | e => ofSystem context e.source

/-- The end of a command whose server fails. -/
def ofServer (context : String) : ServerError → CommandFailure
  | .transport e => ofTransport context e
  | .system e => ofSystem context e

/-- The end of a command whose bridge fails. -/
def ofBridge (context : String) : BridgeError → CommandFailure
  | .server e => ofServer context e
  | e@(.envelope _) => told invalidData context e.message
  | e@(.refused ..) => told failure context e.message

/-- The end of a command whose data source fails. -/
def ofProvider (context : String) : ProviderError → CommandFailure
  | .transport e => ofTransport context e
  | .system e => ofSystem context e
  | .memory (.segmentOpen e) => ofSystem context e
  | e@(.memory (.invalidName _)) => told usage context e.message
  | e => told internal context e.message

/-- The end of a command that was given no span of time. -/
def ofDuration (e : DurationError) : CommandFailure :=
  ⟨usage, e.message⟩

end Exit

end EngineLink
