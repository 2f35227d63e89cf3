import EngineLink.LineServer.Error
import EngineLink.LineServer.Notice

/-!
# A server of lines

A server accepts clients into its slots, reads what they send and queues the messages. All of it
happens in polls. A poll waits once for the port and for every client, accepts at most one
connection and reads each client that the wait found ready once, in the order of their slots. A
client that is accepted in a poll is read in the next one at the earliest.

Read `LineServer.watched`, `LineServer.calls` and `LineServer.poll` first: what a poll waits
for, the calls that it makes once it knows what is ready, and what the answers to them do.
-/

namespace EngineLink

/-- What a server waits for. -/
inductive Watched
  /-- The port, for a connection to accept. -/
  | port
  | client (c : Connection)
  deriving DecidableEq

/-- A call that a server makes after the wait. -/
inductive ServerCall
  | accept
  /-- Reads at most so many bytes. -/
  | read (c : Connection) (room : Nat)
  deriving DecidableEq

/-- What the system answers during one poll. No call is made twice, so an answer does not hang
on those before it. -/
structure PollAnswers where
  wait : Except SystemError Readiness
  accept : Except SystemError (Connection × Address)
  /-- The bytes read from a connection; none means that it has ended. -/
  read : Connection → Except SystemError (List UInt8)

/-- A server with its clients and the messages that wait to be taken. -/
structure LineServer where
  slots : Vector Slot maxClients
  queue : List String
  deriving DecidableEq

namespace LineServer

/-- A server without clients. -/
def empty : LineServer :=
  ⟨Vector.replicate maxClients .free, []⟩

/-- One of the slots. -/
def slot (s : LineServer) (i : Fin maxClients) : Slot :=
  s.slots[i]

/-- The slots that hold a client, with its connection, lowest first. -/
def clients (s : LineServer) : List (Fin maxClients × Connection) :=
  (List.finRange maxClients).filterMap fun i => (s.slot i).stream.map fun c => (i, c)

/-- The number of slots that hold a client. -/
def activeClients (s : LineServer) : Nat :=
  s.clients.length

/-- The lowest free slot. -/
def firstFree? (s : LineServer) : Option (Fin maxClients) :=
  (List.finRange maxClients).find? fun i => (s.slot i).isFree

/-- What a poll waits for: the port, then the clients in the order of their slots. -/
def watched (s : LineServer) : List Watched :=
  .port :: s.clients.map fun entry => .client entry.2

/-- The clients that a wait found ready. -/
def readyClients (s : LineServer) (r : Readiness) : List (Fin maxClients × Connection) :=
  (s.clients.zipIdx.filter fun entry => r.isReady (entry.2 + 1)).map Prod.fst

/-- The calls of a poll after the wait, in order. -/
def calls (s : LineServer) (r : Readiness) : List ServerCall :=
  (if r.isReady 0 then [.accept] else []) ++
    (s.readyClients r).filterMap fun entry => (s.slot entry.1).room?.map (.read entry.2)

/-- The server with another content of one slot. -/
def setSlot (s : LineServer) (i : Fin maxClients) (slot : Slot) : LineServer :=
  { s with slots := s.slots.set i slot }

/-- Takes the answer to an accept: a connection goes into the lowest free slot, and is closed if
there is none. A failure changes nothing. -/
def enroll (s : LineServer) :
    Except SystemError (Connection × Address) → LineServer × List ServerNotice
  | .ok (c, peer) =>
    match s.firstFree? with
    | some i => (s.setSlot i (.occupied c peer), [.accepted c, .added i c])
    | none => (s, [.accepted c, .rejected c])
  | .error e => (s, if e.kind = .wouldBlock then [] else [.acceptFailed e])

/-- Takes bytes that a client sent: they go through the buffer of its slot, and the messages
that end in them are queued. -/
def receive (s : LineServer) (i : Fin maxClients) (bytes : List UInt8) :
    LineServer × List LineNotice :=
  let slot := s.slot i
  let committed := (slot.buffer.write bytes).commit bytes.length
  ({ s.setSlot i { slot with buffer := committed.1 } with
      queue := s.queue ++ LineNotice.messages committed.2 }, committed.2)

/-- Serves a slot that was ready: discards a full buffer, or else takes the answer to a read. The
end of the connection frees the slot; a failure, unless a signal made it, clears the buffer. A
slot without a connection has nothing to serve. -/
def serve (read : Connection → Except SystemError (List UInt8)) (s : LineServer)
    (i : Fin maxClients) : LineServer × List ServerNotice :=
  match (s.slot i).stream with
  | none => (s, [])
  | some c =>
    match (s.slot i).room? with
    | none => (s.setSlot i (s.slot i).clear, [.dumped i])
    | some room =>
      let reading := ServerNotice.reading i c room
      match read c with
      | .ok [] => (s.setSlot i .free, [reading, .disconnected i c])
      | .ok (b :: bytes) =>
        let received := s.receive i (b :: bytes)
        (received.1, reading :: received.2.map .line)
      | .error e =>
        if e.isInterrupted then (s, [reading])
        else (s.setSlot i (s.slot i).clear, [reading, .readFailed i e])

/-- Serves slots one after another. -/
def serveAll (read : Connection → Except SystemError (List UInt8)) :
    List (Fin maxClients) → LineServer → LineServer × List ServerNotice
  | [], s => (s, [])
  | i :: rest, s =>
    let first := serve read s i
    let later := serveAll read rest first.1
    (later.1, first.2 ++ later.2)

/-- What a poll gives: whether the queue grew, or the failure of the wait. -/
structure Polled where
  server : LineServer
  result : Except ServerError Bool
  notices : List ServerNotice

/-- One poll. -/
def poll (s : LineServer) (a : PollAnswers) : Polled :=
  match a.wait with
  | .error e =>
    if e.isInterrupted then ⟨s, .ok false, [.interrupted]⟩
    else ⟨s, .error (.system e), [.waitFailed e]⟩
  | .ok r =>
    let enrolled := if r.isReady 0 then s.enroll a.accept else (s, [])
    let served := serveAll a.read ((s.readyClients r).map Prod.fst) enrolled.1
    ⟨served.1, .ok (decide (s.queue.length < served.1.queue.length)), enrolled.2 ++ served.2⟩

/-- Takes the oldest message. -/
def nextMessage (s : LineServer) : Option String × LineServer :=
  (s.queue.head?, { s with queue := s.queue.tail })

/-- Opens the port of a server, which listens at once. The event of a failure leaves the port
out. -/
def start (address : Address) (a : Listening.Answers) :
    Except ServerError LineServer × List Log.Event :=
  match Listening.start address Listening.standardBacklog a with
  | (.ok _, notices) => (.ok empty, notices.map Listening.Notice.event)
  | (.error e, notices) =>
    (.error (.transport e),
      notices.map Listening.Notice.event ++
        [⟨.error, "line server failed to initialize", [("error", e.message)]⟩])

/-- The log event of closing a server with all its clients. -/
def closingEvent (s : LineServer) : Log.Event :=
  ⟨.info, "line server closing", [("clients", Text.ofNat s.activeClients)]⟩

/-- A server at an address as shown to a developer. -/
def description (s : LineServer) (address : Address) : String :=
  "LineServer \x7b local_addr: " ++ address ++ ", active_clients: " ++
    Text.ofNat s.activeClients ++ ", pending: " ++ Text.ofNat s.queue.length ++ " \x7d"

end LineServer

end EngineLink
