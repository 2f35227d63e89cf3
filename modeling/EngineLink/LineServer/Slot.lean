import EngineLink.Framing.LineBuffer
import EngineLink.Network.Readiness

/-!
# Client slots

A server has a fixed number of slots. A slot is free or holds the connection of a client, with
the bytes of the message that the client has not ended yet.
-/

namespace EngineLink

/-- The number of slots of a server. -/
def maxClients : Nat := 10

/-- A place for one client. -/
structure Slot where
  /-- The connection of the client; without one the slot is free. -/
  stream : Option Connection
  /-- The address of the client. -/
  peer : Option Address
  buffer : LineBuffer
  deriving DecidableEq

namespace Slot

/-- The slot without a client. -/
def free : Slot :=
  ⟨none, none, .empty⟩

/-- The slot of a client that has just been accepted. -/
def occupied (c : Connection) (peer : Address) : Slot :=
  ⟨some c, some peer, .empty⟩

/-- No client has the slot. -/
def isFree (s : Slot) : Bool :=
  s.stream.isNone

/-- The bytes of a message that has not ended yet. -/
def pendingBytes (s : Slot) : Nat :=
  s.buffer.size

/-- The slot without the bytes of an unfinished message. -/
def clear (s : Slot) : Slot :=
  { s with buffer := .empty }

/-- How many bytes the next read may bring; a full buffer is not read into. -/
def room? (s : Slot) : Option Nat :=
  if s.buffer.isFull then none else some s.buffer.remaining

end Slot

end EngineLink
