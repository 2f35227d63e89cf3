import EngineLink.LineServer.Basic

/-!
# Clients on the same machine

A network in memory between one server and its clients. A connection waits until it is accepted;
what a client sends arrives at once and in order, also before that. A client ends its side with
everything it sent still to be read, or resets it: then the first read behind the last byte
fails, and the one after it finds the end.

Read `Loopback.read`, `Loopback.answers` and `Loopback.perform` first.
-/

namespace EngineLink

/-- How a client has ended its side of a connection. -/
inductive Ending
  | unended
  | closed
  /-- The next read behind the last byte fails. -/
  | reset
  deriving DecidableEq

/-- What the server can still read from a client. -/
structure Inflow where
  unread : List UInt8
  ending : Ending
  /-- The server has closed the connection. -/
  dropped : Bool
  deriving DecidableEq

namespace Inflow

/-- A new connection on which nothing was sent. -/
def fresh : Inflow :=
  ⟨[], .unended, false⟩

/-- What the system reports of a connection. -/
def report (f : Inflow) : Report :=
  { input := f.unread ≠ [] || f.ending = .closed, failure := f.ending = .reset }

/-- Reads at most so many bytes. With nothing to read a read would block. -/
def read (f : Inflow) (room : Nat) : Except SystemError (List UInt8) × Inflow :=
  if f.unread ≠ [] then (.ok (f.unread.take room), { f with unread := f.unread.drop room })
  else
    match f.ending with
    | .unended => (.error (.code 11), f)
    | .closed => (.ok [], f)
    | .reset => (.error (.code 104), { f with ending := .closed })

/-- The client sends bytes, unless it has ended its side. -/
def send (f : Inflow) (bytes : List UInt8) : Inflow :=
  if f.ending = .unended then { f with unread := f.unread ++ bytes } else f

/-- The client ends its side, unless it has done so before. -/
def finish (f : Inflow) (ending : Ending) : Inflow :=
  if f.ending = .unended then { f with ending := ending } else f

end Inflow

/-- The connections to a server, and the limits of its program. -/
structure Loopback where
  /-- The connections in the order in which they were made. -/
  flows : List Inflow
  /-- The connections that wait to be accepted, the oldest first. -/
  waiting : List Connection
  limit : DescriptorLimit
  /-- Why no connection can be made, if none can. -/
  unreachable : Option SystemError
  deriving DecidableEq

namespace Loopback

/-- A network without connections. -/
def empty (unreachable : Option SystemError) : Loopback :=
  ⟨[], [], .roomy, unreachable⟩

/-- What the server can read from a connection; from none that was never made. -/
def flow (w : Loopback) (c : Connection) : Inflow :=
  (w.flows[c]?).getD .fresh

/-- The network with one connection changed. -/
def modify (w : Loopback) (c : Connection) (f : Inflow → Inflow) : Loopback :=
  { w with flows := w.flows.set c (f (w.flow c)) }

/-- A client connects and waits to be accepted. -/
def connect (w : Loopback) : Except SystemError Connection × Loopback :=
  match w.unreachable <|> w.limit.refusal? with
  | some e => (.error e, w)
  | none =>
    let c := w.flows.length
    (.ok c, { w with flows := w.flows ++ [.fresh], waiting := w.waiting ++ [c] })

/-- What opening the port of the server once more is answered: it is in use. -/
def portAnswers (w : Loopback) : Listening.Answers :=
  { socket := match w.limit.refusal? with
      | some e => .error e
      | none => .ok ()
    bind := .error (.code 98)
    listen := .ok () }

/-- What the system reports of something that the server waits for. -/
def report (w : Loopback) : Watched → Report
  | .port => { input := w.waiting ≠ [] }
  | .client c => (w.flow c).report

/-- Something that a server waits for is ready. -/
def anyReady (w : Loopback) (s : LineServer) : Bool :=
  s.watched.any fun x => (w.report x).isReady

/-- A wait of the server. If nothing is ready a signal ends it. -/
def wait (w : Loopback) (s : LineServer) : Except SystemError Readiness :=
  Readiness.wait w.limit true (s.watched.map w.report)

/-- The address of every client. -/
def clientAddress : Address :=
  "127.0.0.1"

/-- The answer to an accept. -/
def accept (w : Loopback) : Except SystemError (Connection × Address) :=
  match w.limit.refusal?, w.waiting with
  | some e, _ => .error e
  | none, [] => .error (.code 11)
  | none, c :: _ => .ok (c, clientAddress)

/-- What a call of the server does to the network. -/
def perform (w : Loopback) : ServerCall → Loopback
  | .accept => if w.limit = .roomy then { w with waiting := w.waiting.tail } else w
  | .read c room => w.modify c fun f => (f.read room).2

/-- The server closes connections. -/
def drop (w : Loopback) (cs : List Connection) : Loopback :=
  cs.foldl (fun w c => w.modify c fun f => { f with dropped := true }) w

/-- How many bytes a poll may read from a connection. -/
def roomIn (calls : List ServerCall) (c : Connection) : Nat :=
  (calls.findSome? fun
    | .read d room => if c = d then some room else none
    | .accept => none).getD 0

/-- The calls that a poll of a server makes. -/
def callsOf (w : Loopback) (s : LineServer) : List ServerCall :=
  match w.wait s with
  | .ok r => s.calls r
  | .error _ => []

/-- What the network answers to one poll of a server. -/
def answers (w : Loopback) (s : LineServer) : PollAnswers :=
  { wait := w.wait s
    accept := w.accept
    read := fun c => ((w.flow c).read (roomIn (w.callsOf s) c)).1 }

/-- What a poll gave, and the network after it. -/
structure Polled where
  outcome : LineServer.Polled
  network : Loopback

/-- One poll of a server on this network. -/
def poll (w : Loopback) (s : LineServer) : Polled :=
  let outcome := s.poll (w.answers s)
  ⟨outcome, ((w.callsOf s).foldl perform w).drop (ServerNotice.closed outcome.notices)⟩

/-- An upper bound for the polls that find something ready: every accept, every byte, the end of
every connection and every full buffer takes at most one. -/
def work (w : Loopback) : Nat :=
  w.waiting.length + 2 * w.flows.foldl (fun n f => n + f.unread.length + 1) 0 + maxClients

/-- What polls gave, one after another. -/
structure PolledAll where
  outcomes : List LineServer.Polled
  server : LineServer
  network : Loopback

/-- Polls at most so many times, while something is ready and the wait succeeds. -/
def pollAtMost : Nat → Loopback → LineServer → PolledAll
  | 0, w, s => ⟨[], s, w⟩
  | n + 1, w, s =>
    if w.anyReady s then
      let p := w.poll s
      match p.outcome.result with
      | .ok _ =>
        let later := pollAtMost n p.network p.outcome.server
        { later with outcomes := p.outcome :: later.outcomes }
      | .error _ => ⟨[p.outcome], p.outcome.server, p.network⟩
    else ⟨[], s, w⟩

/-- Polls while something is ready. -/
def pollAll (w : Loopback) (s : LineServer) : PolledAll :=
  pollAtMost w.work w s

end Loopback

end EngineLink
