import EngineLink.Network.Error

/-!
# Failures of the line server

A server fails when it cannot listen, or when the wait for its descriptors fails.
-/

namespace EngineLink

/-- A failure of the server. -/
inductive ServerError
  | transport (e : TransportError)
  /-- The wait for readiness failed. -/
  | system (e : SystemError)
  deriving DecidableEq

/-- The sentence for a failure of the server. -/
def ServerError.message : ServerError → String
  | transport e => "transport error: " ++ e.message
  | system e => "server I/O error: " ++ e.message

end EngineLink
