import EngineLink.Command.Envelope
import EngineLink.LineServer.Error

/-!
# Failures between clients and the bus

A message reaches the bus unless the server fails, the message holds no command, or the bus
refuses it.
-/

namespace EngineLink

/-- Why a message did not reach the bus. -/
inductive BridgeError
  | server (e : ServerError)
  | envelope (e : EnvelopeError)
  /-- The bus does not take commands for this node. -/
  | refused (node reason : String)
  deriving DecidableEq

/-- The sentence for a message that did not reach the bus. -/
def BridgeError.message : BridgeError → String
  | server e => "server error: " ++ e.message
  | envelope e => e.message
  | refused node reason => "unable to send message to " ++ node ++ ": " ++ reason

end EngineLink
