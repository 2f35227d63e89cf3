import EngineLink.LineServer.Slot
import EngineLink.Network.Listening

/-!
# What a server has to tell

The notices of one poll, in the order in which they arise, with their log events.
-/

namespace EngineLink

/-- A notice of a server. -/
inductive ServerNotice
  /-- A signal ended the wait. -/
  | interrupted
  | waitFailed (e : SystemError)
  | acceptFailed (e : SystemError)
  | accepted (c : Connection)
  /-- An accepted connection was given a slot. -/
  | added (slot : Fin maxClients) (c : Connection)
  /-- An accepted connection found no free slot and was closed. -/
  | rejected (c : Connection)
  /-- A slot was ready, but its buffer was full and was discarded instead. -/
  | dumped (slot : Fin maxClients)
  /-- A connection was read, up to so many bytes. -/
  | reading (slot : Fin maxClients) (c : Connection) (room : Nat)
  /-- A connection ended and its slot was freed. -/
  | disconnected (slot : Fin maxClients) (c : Connection)
  | readFailed (slot : Fin maxClients) (e : SystemError)
  /-- The bytes read went through the buffer of the slot. -/
  | line (n : LineNotice)
  deriving DecidableEq

namespace ServerNotice

/-- The number of a slot as a field of an event. -/
def slotField (slot : Fin maxClients) : String × String :=
  ("slot", Text.ofNat slot)

/-- The log event of a notice, without the address and the descriptor of the client. -/
def event : ServerNotice → Log.Event
  | interrupted => ⟨.info, "readiness wait interrupted, prepare for shutdown", []⟩
  | waitFailed e => ⟨.error, "readiness wait failed", [("error", e.message)]⟩
  | acceptFailed e =>
    ⟨.error, "socket accept failed", [("error", (TransportError.accept e).message)]⟩
  | accepted _ => Listening.acceptedEvent
  | added slot _ => ⟨.debug, "added new client connection", [slotField slot]⟩
  | rejected _ =>
    ⟨.error, "max number of client connections exceeded, rejecting connection request",
      [("max", Text.ofNat maxClients)]⟩
  | dumped slot => ⟨.error, "receive buffer full, dumping buffer", [slotField slot]⟩
  | reading slot _ room =>
    ⟨.debug, "reading client data", [slotField slot, ("free", Text.ofNat room)]⟩
  | disconnected slot _ => ⟨.debug, "client disconnect", [slotField slot]⟩
  | readFailed slot e =>
    ⟨.error, "socket read error, resetting buffer", [slotField slot, ("error", e.message)]⟩
  | line n => n.event

/-- The connection that is closed with a notice. -/
def closes? : ServerNotice → Option Connection
  | rejected c | disconnected _ c => some c
  | _ => none

/-- The connections that are closed with notices. -/
def closed (notices : List ServerNotice) : List Connection :=
  notices.filterMap closes?

end ServerNotice

end EngineLink
