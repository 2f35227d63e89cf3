import EngineLink.Blackboard.Error
import EngineLink.Network.Error

/-!
# Failures of data sources

A source of simulation data is a connection to the engine or a shared segment; it fails as they
do, or when its reader cannot be started.
-/

namespace EngineLink

/-- A failure of a data source. -/
inductive ProviderError
  | transport (e : TransportError)
  | memory (e : MemoryError)
  | threadSpawn (e : SystemError)
  | system (e : SystemError)
  deriving DecidableEq

/-- The sentence for a failure of a data source. -/
def ProviderError.message : ProviderError → String
  | transport e => "transport error: " ++ e.message
  | memory e => "shared memory error: " ++ e.message
  | threadSpawn e => "failed to spawn telemetry reader thread: " ++ e.message
  | system e => "I/O error: " ++ e.message

end EngineLink
