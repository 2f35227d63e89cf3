import EngineLink.Command.Error
import EngineLink.Log
import EngineLink.Text.Digits

/-!
# The command bus

A bus takes the bytes of a command for a node, or refuses them. It has a state of its own, which
every command may change.
-/

namespace EngineLink

/-- What a bus answers to a command. -/
structure BusReply (β : Type) where
  result : Except BridgeError Unit
  /-- What the bus has to tell. -/
  events : List Log.Event
  bus : β

/-- A bus with its state. -/
structure Bus (β : Type) where
  send : β → String → List UInt8 → BusReply β

/-- A bus that tells every command and counts them. -/
structure LoggingBus where
  sent : Nat
  deriving DecidableEq

namespace LoggingBus

/-- No command was sent. -/
def unused : LoggingBus :=
  ⟨0⟩

/-- Takes a command of any node. -/
def bus : Bus LoggingBus :=
  ⟨fun b node payload =>
    ⟨.ok (), [⟨.info, "command bus send", [("node", node), ("size", Text.ofNat payload.length)]⟩],
      ⟨b.sent + 1⟩⟩⟩

/-- The log event of a bridge that is about to run, without its port. -/
def listeningEvent : Log.Event :=
  ⟨.info, "command bus bridge listening", []⟩

/-- The log event of a bridge that has run. -/
def finishedEvent (b : LoggingBus) : Log.Event :=
  ⟨.info, "command bus bridge finished", [("forwarded", Text.ofNat b.sent)]⟩

end LoggingBus

end EngineLink
