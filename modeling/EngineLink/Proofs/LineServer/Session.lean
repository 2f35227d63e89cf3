import EngineLink.LineServer.Loopback
import EngineLink.Proofs.LineServer.Readings

/-!
# Sessions of a server with its clients

A session is a server on a network with the clients on it, and the history of both. Clients
connect, send, close and reset, the server polls, and messages are taken from its queue, in any
order. What a poll meets is left open: which ready descriptors the wait reports, how many bytes a
read brings, and which of the calls fail and how.

Read `Chance`, `Event` and `Session.step` first. A statement about `Session.run` covers every
order of events and every outcome of the polls among them.
-/

namespace EngineLink

/-- What the system decides in a poll, beyond what the clients did. -/
structure Chance where
  /-- Why the wait fails, if it does. -/
  wait : Option SystemError
  /-- Whether the wait reports a descriptor that is ready. -/
  reports : Watched → Bool
  /-- Why the accept fails, if it does. -/
  accept : Option SystemError
  /-- Why the read of a connection fails, or how many bytes it brings at most besides the
  first. -/
  read : Connection → Except SystemError Nat

/-- How many bytes the next read of a connection may bring. -/
def LineServer.roomFor (s : LineServer) (c : Connection) : Nat :=
  ((s.clients.find? fun entry => entry.2 = c).map fun entry =>
    (s.slot entry.1).buffer.remaining).getD 0

namespace Chance

/-- What a read of a connection gives, and what can be read from it afterwards. -/
def reading (k : Chance) (w : Loopback) (s : LineServer) (c : Connection) : Reading × Inflow :=
  match k.read c with
  | .error e => (.error e, w.flow c)
  | .ok n => (w.flow c).read (min (n + 1) (s.roomFor c))

/-- What the system answers to a poll of a server. -/
def answers (k : Chance) (w : Loopback) (s : LineServer) : PollAnswers :=
  { wait := match k.wait with
      | some e => .error e
      | none => .ok ⟨s.watched.map fun x => k.reports x && (w.report x).isReady⟩
    accept := match k.accept with
      | some e => .error e
      | none => w.accept
    read := fun c => (k.reading w s c).1 }

end Chance

/-- Something that happens to a server and its clients. -/
inductive Event
  /-- A client connects. -/
  | connect
  /-- A client sends bytes. -/
  | send (c : Connection) (bytes : List UInt8)
  /-- A client closes or resets its connection. -/
  | finish (c : Connection) (ending : Ending)
  /-- The server polls. -/
  | poll (k : Chance)
  /-- The oldest message is taken from the queue. -/
  | next

/-- A server on a network, with the history of both. -/
structure Session where
  network : Loopback
  server : LineServer
  /-- The bytes that were sent on each connection. -/
  sent : Connection → List UInt8
  /-- What the reads of each connection gave, in order. -/
  reads : Connection → List Reading
  /-- The messages that were queued, in order, each with the connection that completed it. -/
  enqueued : List (Connection × String)
  /-- The messages that were taken from the queue, in order. -/
  taken : List String
  /-- The connections that were accepted and found no slot. -/
  rejected : List Connection

namespace Session

/-- A server without clients that has just started. -/
def start : Session :=
  ⟨.empty none, .empty, fun _ => [], fun _ => [], [], [], []⟩

/-- A client connects. -/
def connect (x : Session) : Session :=
  { x with network := x.network.connect.2 }

/-- A client can still send on its connection. -/
def isOpen (x : Session) (c : Connection) : Prop :=
  c < x.network.flows.length ∧ (x.network.flow c).ending = .unended

instance (x : Session) (c : Connection) : Decidable (x.isOpen c) :=
  inferInstanceAs (Decidable (_ ∧ _))

/-- A client sends bytes; on a connection that it has ended, nothing is sent. -/
def send (x : Session) (c : Connection) (bytes : List UInt8) : Session :=
  { x with
    network := x.network.modify c fun f => f.send bytes
    sent := fun d => if d = c ∧ x.isOpen c then x.sent d ++ bytes else x.sent d }

/-- A client ends its connection. -/
def finish (x : Session) (c : Connection) (ending : Ending) : Session :=
  { x with network := x.network.modify c fun f => f.finish ending }

/-- The network after a poll that gave notices. -/
def networkAfter (x : Session) (k : Chance) (notices : List ServerNotice) : Loopback :=
  let accepted := notices.filterMap ServerNotice.accepted?
  let admitted := { x.network with waiting := x.network.waiting.drop accepted.length }
  let read := (ServerNotice.reads notices).foldl
    (fun w c => w.modify c fun _ => (k.reading x.network x.server c).2) admitted
  read.drop (ServerNotice.closed notices)

/-- The server polls. -/
def poll (x : Session) (k : Chance) : Session :=
  let polled := x.server.poll (k.answers x.network x.server)
  { x with
    network := x.networkAfter k polled.notices
    server := polled.server
    reads := fun c => x.reads c ++
      ((ServerNotice.reads polled.notices).filter (· = c)).map
        fun c => (k.reading x.network x.server c).1
    enqueued := x.enqueued ++ ServerNotice.delivered none polled.notices
    rejected := x.rejected ++ polled.notices.filterMap ServerNotice.rejected? }

/-- The oldest message is taken. -/
def next (x : Session) : Session :=
  { x with
    server := x.server.nextMessage.2
    taken := x.taken ++ x.server.nextMessage.1.toList }

/-- What an event makes of a session. -/
def step (x : Session) : Event → Session
  | .connect => x.connect
  | .send c bytes => x.send c bytes
  | .finish c ending => x.finish c ending
  | .poll k => x.poll k
  | .next => x.next

/-- What events make of a server that has just started. -/
def run (events : List Event) : Session :=
  events.foldl step start

/-- What holds at the start and is kept by every event holds in every session. -/
theorem run_induction {P : Session → Prop} (hstart : P start)
    (hstep : ∀ x, P x → ∀ event, P (x.step event)) (events : List Event) : P (run events) := by
  have hsteps : ∀ x, P x → P (events.foldl step x) := by
    induction events with
    | nil => exact fun x h => h
    | cons event rest ih => exact fun x h => ih (x.step event) (hstep x h event)
  exact hsteps start hstart

end Session

/-! ## The network -/

namespace Loopback

/-- Only the flow of a connection that was made can be changed, and the others stay. -/
theorem flow_modify (w : Loopback) (c d : Connection) (f : Inflow → Inflow) :
    (w.modify c f).flow d = if d = c ∧ c < w.flows.length then f (w.flow c) else w.flow d := by
  by_cases hd : d = c
  · subst hd
    by_cases hmade : d < w.flows.length <;> simp [modify, flow, hmade]
  · have : ¬ c = d := fun h => hd h.symm
    simp [modify, flow, hd, this]

/-- Another flow of a connection makes no further one. -/
@[simp] theorem length_flows_modify (w : Loopback) (c : Connection) (f : Inflow → Inflow) :
    (w.modify c f).flows.length = w.flows.length := by
  simp [modify]

/-- Another flow of a connection leaves those that wait. -/
@[simp] theorem waiting_modify (w : Loopback) (c : Connection) (f : Inflow → Inflow) :
    (w.modify c f).waiting = w.waiting := rfl

/-- Modifying the flows of connections leaves all others, and the queue of the port, as they
are. -/
theorem foldl_modify (w : Loopback) (cs : List Connection) (g : Connection → Inflow) :
    let after := cs.foldl (fun w c => w.modify c fun _ => g c) w
    after.flows.length = w.flows.length ∧ after.waiting = w.waiting ∧ ∀ c, after.flow c =
      if c ∈ cs ∧ c < w.flows.length then g c else w.flow c := by
  induction cs generalizing w with
  | nil => simp
  | cons d rest ih =>
      obtain ⟨hlength, hwaiting, hflow⟩ := ih (w.modify d fun _ => g d)
      refine ⟨by simpa using hlength, by simpa using hwaiting, fun c => ?_⟩
      rw [List.foldl_cons, hflow c, flow_modify, length_flows_modify]
      by_cases hc : c = d
      · subst hc
        by_cases hmade : c < w.flows.length <;> simp [hmade]
      · simp [hc]

/-- Closing connections on the side of the server leaves what can be read from them. -/
theorem flow_drop (w : Loopback) (cs : List Connection) :
    (w.drop cs).flows.length = w.flows.length ∧ (w.drop cs).waiting = w.waiting ∧ ∀ c,
      ((w.drop cs).flow c).unread = (w.flow c).unread ∧
        ((w.drop cs).flow c).ending = (w.flow c).ending := by
  induction cs generalizing w with
  | nil => simp [drop]
  | cons d rest ih =>
      obtain ⟨hlength, hwaiting, hflow⟩ := ih (w.modify d fun f => { f with dropped := true })
      refine ⟨by simpa [drop] using hlength, by simpa [drop] using hwaiting, fun c => ?_⟩
      obtain ⟨hunread, hending⟩ := hflow c
      rw [flow_modify] at hunread hending
      simp only [drop, List.foldl_cons] at hunread hending ⊢
      rw [hunread, hending]
      split
      · next h => simp [h.1]
      · simp

/-- A new connection changes nothing on those before it. -/
theorem flow_connect (w : Loopback) (c : Connection) : w.connect.2.flow c = w.flow c := by
  unfold connect
  split
  · rfl
  · simp only [flow]
    rcases Nat.lt_trichotomy c w.flows.length with h | h | h
    · rw [List.getElem?_append_left h]
    · subst h
      simp
    · rw [List.getElem?_eq_none (by simp; omega), List.getElem?_eq_none (by omega)]

/-- A connection is made behind all others and waits, unless none can be made. -/
theorem connect_cases (w : Loopback) :
    w.connect.2.flows.length = w.flows.length ∧ w.connect.2.waiting = w.waiting ∨
      w.connect.2.flows.length = w.flows.length + 1 ∧
        w.connect.2.waiting = w.waiting ++ [w.flows.length] := by
  unfold connect
  split
  · exact .inl ⟨rfl, rfl⟩
  · exact .inr ⟨by simp, rfl⟩

/-- A client that connects leaves the limit of descriptors. -/
@[simp] theorem limit_connect (w : Loopback) : w.connect.2.limit = w.limit := by
  unfold connect
  split <;> rfl

/-- Modifying flows leaves the limits of the program as they are. -/
theorem limit_foldl_modify (w : Loopback) (cs : List Connection)
    (f : Connection → Inflow → Inflow) :
    (cs.foldl (fun w c => w.modify c (f c)) w).limit = w.limit := by
  induction cs generalizing w with
  | nil => rfl
  | cons c rest ih => exact ih (w.modify c (f c))

end Loopback

namespace Session

/-! ## What a poll of a session does -/

/-- The descriptors that the wait of a poll reports. -/
def reported (x : Session) (k : Chance) : Readiness :=
  ⟨x.server.watched.map fun w => k.reports w && (x.network.report w).isReady⟩

/-- The clients that a poll serves. -/
def ready (x : Session) (k : Chance) : List (Fin maxClients × Connection) :=
  x.server.readyClients (x.reported k)

/-- The connections that a poll reads. -/
def readers (x : Session) (k : Chance) : List Connection :=
  ((x.ready k).filter fun entry => !(x.server.slot entry.1).buffer.isFull).map Prod.snd

/-- What a poll makes of the slot of a client that it serves, and what is told. -/
def serving (x : Session) (k : Chance) (entry : Fin maxClients × Connection) :
    Slot × List ServerNotice :=
  (x.server.slot entry.1).served entry.1 entry.2 (k.reading x.network x.server entry.2).1

/-- The server after the accept of a poll, and what is told of it. -/
def admission (x : Session) (k : Chance) : LineServer × List ServerNotice :=
  x.server.admitted (x.reported k) (k.answers x.network x.server).accept

/-- A poll whose wait fails leaves the session as it is. -/
theorem poll_of_wait_failure {x : Session} {k : Chance} {e : SystemError}
    (h : k.wait = some e) : x.poll k = x := by
  have hwait : (k.answers x.network x.server).wait = .error e := by simp [Chance.answers, h]
  obtain ⟨hserver, hnotices⟩ := LineServer.poll_of_wait_error (s := x.server) hwait
  -- neither notice tells of an accept, a reading or a message
  rcases hnotices with hnotices | hnotices
  all_goals
    simp only [poll, hserver, hnotices]
    show (⟨x.network, x.server, x.sent, fun c => x.reads c ++ [], x.enqueued ++ [], x.taken,
      x.rejected ++ []⟩ : Session) = x
    simp only [List.append_nil]

variable {x : Session} {k : Chance}

/-- A wait that does not fail reports what the session says. -/
theorem wait_answers (h : k.wait = none) :
    (k.answers x.network x.server).wait = .ok (x.reported k) := by
  simp [Chance.answers, h, reported]

/-- A poll tells of its accept, then of the clients that it serves. -/
theorem notices_poll (h : k.wait = none) :
    (x.server.poll (k.answers x.network x.server)).notices =
      (x.admission k).2 ++ (x.ready k).flatMap fun entry => (x.serving k entry).2 :=
  (LineServer.poll_of_wait_ok (wait_answers h)).1

/-- A poll reads some of the clients. -/
theorem reads_poll (h : k.wait = none) :
    ServerNotice.reads (x.server.poll (k.answers x.network x.server)).notices = x.readers k :=
  LineServer.reads_poll_eq (wait_answers h)

/-- The messages of a poll are queued for the connections that complete them. -/
theorem enqueued_poll (h : k.wait = none) :
    (x.poll k).enqueued = x.enqueued ++ (x.ready k).flatMap fun entry =>
      (ServerNotice.messages (x.serving k entry).2).map (entry.2, ·) := by
  simp only [poll, (LineServer.poll_of_wait_ok (wait_answers h)).1,
    LineServer.delivered_admitted, LineServer.delivered_served_notices]
  rfl

/-- A poll queues the messages of the clients that it serves, in the order of their slots. -/
theorem queue_poll (h : k.wait = none) :
    (x.poll k).server.queue = x.server.queue ++ (x.ready k).flatMap fun entry =>
      ServerNotice.messages (x.serving k entry).2 := by
  rw [← ServerNotice.messages_flat_map]
  exact (LineServer.poll_of_wait_ok (wait_answers h)).2.1

/-- A client that a poll serves is served as it was at the start. -/
theorem slot_poll_serving (h : k.wait = none) {entry : Fin maxClients × Connection}
    (hready : entry ∈ x.ready k) :
    (x.poll k).server.slot entry.1 = (x.serving k entry).1 :=
  (LineServer.poll_of_wait_ok (wait_answers h)).2.2.1 entry hready

/-- A poll changes no other slot but for the accept. -/
theorem slot_poll_admission (h : k.wait = none) {j : Fin maxClients}
    (hready : ∀ c, (j, c) ∉ x.ready k) :
    (x.poll k).server.slot j = (x.admission k).1.slot j := by
  refine (LineServer.poll_of_wait_ok (wait_answers h)).2.2.2 j fun hmem => ?_
  obtain ⟨⟨i, c⟩, hentry, rfl⟩ := List.mem_map.1 hmem
  exact hready c hentry

/-- A free slot is not served. -/
theorem not_ready_of_free {j : Fin maxClients} (h : (x.server.slot j).stream = none)
    (c : Connection) : (j, c) ∉ x.ready k := by
  intro hentry
  rw [LineServer.mem_clients_of_ready hentry] at h
  cases h

/-- The connections that a poll tells it accepted and rejected are those of its accept. -/
theorem admitted_poll (h : k.wait = none) :
    let notices := (x.server.poll (k.answers x.network x.server)).notices
    notices.filterMap ServerNotice.accepted? =
        (x.admission k).2.filterMap ServerNotice.accepted? ∧
      notices.filterMap ServerNotice.rejected? =
        (x.admission k).2.filterMap ServerNotice.rejected? := by
  intro notices
  have hserved : ∀ notice ∈ (x.ready k).flatMap fun entry => (x.serving k entry).2,
      notice.accepted? = none ∧ notice.rejected? = none := by
    intro notice hnotice
    obtain ⟨entry, _, hentry⟩ := List.mem_flatMap.1 hnotice
    exact Slot.not_admitted_served _ _ _ _ _ hentry
  simp only [notices, notices_poll h, List.filterMap_append]
  rw [List.filterMap_eq_nil_iff.2 fun notice hnotice => (hserved notice hnotice).1,
    List.filterMap_eq_nil_iff.2 fun notice hnotice => (hserved notice hnotice).2]
  simp only [List.append_nil, and_self]

/-- The readings that a poll makes of a connection. -/
def readingsOf (x : Session) (k : Chance) (c : Connection) : List Reading :=
  ((x.readers k).filter (· = c)).map fun c => (k.reading x.network x.server c).1

/-- A poll adds to the readings of a connection what it reads of it. -/
theorem reads_after_poll (h : k.wait = none) (c : Connection) :
    (x.poll k).reads c = x.reads c ++ x.readingsOf k c := by
  rw [readingsOf, ← reads_poll h]
  rfl

/-- A poll takes accepted connections from the queue of the port, and bytes from the connections
that it reads. -/
theorem network_poll (h : k.wait = none) :
    (x.poll k).network.flows.length = x.network.flows.length ∧
      (x.poll k).network.waiting = x.network.waiting.drop
        ((x.admission k).2.filterMap ServerNotice.accepted?).length ∧
      ∀ c, ∃ f, ((x.poll k).network.flow c).unread = f.unread ∧
        ((x.poll k).network.flow c).ending = f.ending ∧
          f = if c ∈ x.readers k ∧ c < x.network.flows.length then
            (k.reading x.network x.server c).2
          else x.network.flow c := by
  obtain ⟨w, hflows, hwaits, hafter⟩ : ∃ w : Loopback, w.flows = x.network.flows ∧ w.waiting =
      x.network.waiting.drop ((x.admission k).2.filterMap ServerNotice.accepted?).length ∧
      (x.poll k).network = ((x.readers k).foldl
        (fun w c => w.modify c fun _ => (k.reading x.network x.server c).2) w).drop
          (ServerNotice.closed (x.server.poll (k.answers x.network x.server)).notices) := by
    rw [← (admitted_poll h).1, ← reads_poll h]
    exact ⟨⟨x.network.flows, x.network.waiting.drop _, x.network.limit, x.network.unreachable⟩,
      rfl, rfl, rfl⟩
  obtain ⟨hlength, hwaiting, hread⟩ :=
    w.foldl_modify (x.readers k) fun c => (k.reading x.network x.server c).2
  obtain ⟨hdropLength, hdropWaiting, hdrop⟩ := Loopback.flow_drop
    ((x.readers k).foldl (fun w c => w.modify c fun _ => (k.reading x.network x.server c).2) w)
    (ServerNotice.closed (x.server.poll (k.answers x.network x.server)).notices)
  rw [hafter]
  refine ⟨?_, ?_, fun c => ?_⟩
  · rw [hdropLength, hlength, hflows]
  · rw [hdropWaiting, hwaiting, hwaits]
  · refine ⟨_, (hdrop c).1, (hdrop c).2, ?_⟩
    rw [hread c, hflows, Loopback.flow, hflows]
    rfl

/-- A poll leaves the limit of descriptors. -/
theorem limit_poll (x : Session) (k : Chance) : (x.poll k).network.limit = x.network.limit := by
  show (Loopback.drop _ _).limit = _
  rw [Loopback.drop, Loopback.limit_foldl_modify, Loopback.limit_foldl_modify]

end Session

end EngineLink
