import EngineLink.Log
import EngineLink.Network.Error

/-!
# Opening a port

A port is opened in three steps, each of which fails in its own way: a socket is made, it is
bound to the port on every interface, and it starts to listen.

Read `Listening.start` first.
-/

namespace EngineLink.Listening

/-- How many connections wait to be accepted unless another number is given. -/
def standardBacklog : Nat := 5

/-- The address of a port on every interface. -/
def anyAddress (port : String) : Address :=
  "0.0.0.0:" ++ port

/-- What the system answers to the three steps. -/
structure Answers where
  socket : Except SystemError Unit
  bind : Except SystemError Unit
  listen : Except SystemError Unit

/-- What opening a port has to tell. -/
inductive Notice
  | created
  | bound
  | started (backlog : Nat)
  deriving DecidableEq

/-- The log event of a notice, without the address and the descriptor of the socket. -/
def Notice.event : Notice → Log.Event
  | created => ⟨.debug, "listener socket created", []⟩
  | bound => ⟨.debug, "listener socket bound", []⟩
  | started backlog =>
    ⟨.info, "listening for tcp connections", [("backlog", Text.ofNat backlog)]⟩

/-- Opens a port at an address. -/
def start (address : Address) (backlog : Nat) (a : Answers) :
    Except TransportError Unit × List Notice :=
  match a.socket with
  | .error e => (.error (.socket e), [])
  | .ok _ =>
    match a.bind with
    | .error e => (.error (.bind address e), [.created])
    | .ok _ =>
      match a.listen with
      | .error e => (.error (.listen address e), [.created, .bound])
      | .ok _ => (.ok (), [.created, .bound, .started backlog])

/-- A listening socket as shown to a developer. -/
def description (address : Address) : String :=
  "TcpAcceptor \x7b local_addr: " ++ address ++ " \x7d"

/-- The log event of an accepted connection, without its address and its descriptor. -/
def acceptedEvent : Log.Event :=
  ⟨.debug, "accepted connection", []⟩

end EngineLink.Listening
