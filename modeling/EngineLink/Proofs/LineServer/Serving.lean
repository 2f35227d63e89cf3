import EngineLink.LineServer.Basic
import EngineLink.Proofs.Framing.LineStream
import Mathlib.Data.List.FinRange

/-!
# What a poll does to the slots

A poll changes the slots of the clients that the wait found ready, each by itself, and at most one
slot that was free. Read `Slot.served` first: what the answer to a read makes of a slot.
`serve_all_eq` then gives the outcome of serving all ready slots from the slots as they were at
the start of the poll, although they are served one after another.
-/

namespace EngineLink

/-- What a slot becomes when it is served, and what is told. -/
def Slot.served (slot : Slot) (i : Fin maxClients) (c : Connection)
    (answer : Except SystemError (List UInt8)) : Slot × List ServerNotice :=
  match slot.room? with
  | none => (slot.clear, [.dumped i])
  | some room =>
    match answer with
    | .ok [] => (.free, [.reading i c room, .disconnected i c])
    | .ok (b :: bytes) =>
      let committed := (slot.buffer.write (b :: bytes)).commit (b :: bytes).length
      ({ slot with buffer := committed.1 }, .reading i c room :: committed.2.map .line)
    | .error e =>
      if e.isInterrupted then (slot, [.reading i c room])
      else (slot.clear, [.reading i c room, .readFailed i e])

namespace ServerNotice

/-- The notice of a line buffer that a server passes on. -/
def line? : ServerNotice → Option LineNotice
  | line n => some n
  | _ => none

/-- The messages that notices tell of. -/
def messages (notices : List ServerNotice) : List String :=
  LineNotice.messages (notices.filterMap line?)

/-- The connection that a notice tells was read. -/
def read? : ServerNotice → Option Connection
  | reading _ c _ => some c
  | _ => none

/-- The connections that notices tell were read, in order. -/
def reads (notices : List ServerNotice) : List Connection :=
  notices.filterMap read?

/-- The connection that a notice tells was accepted. -/
def accepted? : ServerNotice → Option Connection
  | accepted c => some c
  | _ => none

/-- The connection that a notice tells was rejected. -/
def rejected? : ServerNotice → Option Connection
  | rejected c => some c
  | _ => none

/-- The messages that notices tell of, each with the connection whose reading it follows. -/
def delivered : Option Connection → List ServerNotice → List (Connection × String)
  | _, [] => []
  | _, reading _ c _ :: rest => delivered (some c) rest
  | some c, line (.message text) :: rest => (c, text) :: delivered (some c) rest
  | from?, _ :: rest => delivered from? rest

/-- Without a notice there is no message. -/
@[simp] theorem messages_nil : messages [] = [] := rfl

/-- The messages of notices one behind the other are those of each. -/
@[simp] theorem messages_append (first second : List ServerNotice) :
    messages (first ++ second) = messages first ++ messages second := by
  simp [messages]

/-- Only the notices of a line buffer tell of messages. -/
theorem messages_cons (notice : ServerNotice) (rest : List ServerNotice) :
    messages (notice :: rest) = LineNotice.messages notice.line?.toList ++ messages rest := by
  cases h : notice.line? <;> simp [messages, h, LineNotice.messages, List.filterMap_cons]
  split <;> simp_all

/-- The messages of what is told of entries are those of what is told of each. -/
theorem messages_flat_map {α : Type} (entries : List α) (told : α → List ServerNotice) :
    messages (entries.flatMap told) = entries.flatMap fun entry => messages (told entry) := by
  induction entries with
  | nil => rfl
  | cons entry rest ih => rw [List.flatMap_cons, messages_append, ih, List.flatMap_cons]

/-- The notices that a line buffer gave tell of its messages. -/
@[simp] theorem messages_map_line (notices : List LineNotice) :
    messages (notices.map line) = LineNotice.messages notices := by
  simp [messages, List.filterMap_map, Function.comp_def, line?]

/-- The reads of notices one behind the other are those of each. -/
@[simp] theorem reads_append (first second : List ServerNotice) :
    reads (first ++ second) = reads first ++ reads second := by
  simp [reads]

/-- The notices that a line buffer gave for a connection deliver its messages. -/
theorem delivered_map_line (c : Connection) (notices : List LineNotice)
    (rest : List ServerNotice) :
    delivered (some c) (notices.map line ++ rest) =
      (LineNotice.messages notices).map (c, ·) ++ delivered (some c) rest := by
  induction notices with
  | nil => rfl
  | cons notice notices ih => cases notice <;> simp [delivered, ih]

end ServerNotice

namespace Slot

/-! ## Serving a slot -/

section
variable {slot : Slot} (i : Fin maxClients) (c : Connection)

/-- A full buffer is discarded. -/
theorem served_of_full (hfull : slot.buffer.isFull = true)
    (answer : Except SystemError (List UInt8)) :
    slot.served i c answer = (slot.clear, [.dumped i]) := by
  simp [served, room?, hfull]

/-- The end of the connection frees the slot. -/
theorem served_of_end (hroom : slot.buffer.isFull = false) :
    slot.served i c (.ok []) =
      (.free, [.reading i c slot.buffer.remaining, .disconnected i c]) := by
  simp [served, room?, hroom]

/-- Bytes that were read go through the buffer. -/
theorem served_of_bytes (hroom : slot.buffer.isFull = false) {bytes : List UInt8}
    (hbytes : bytes ≠ []) :
    slot.served i c (.ok bytes) =
      ({ slot with buffer := ((slot.buffer.write bytes).commit bytes.length).1 },
        .reading i c slot.buffer.remaining ::
          ((slot.buffer.write bytes).commit bytes.length).2.map .line) := by
  cases bytes with
  | nil => exact absurd rfl hbytes
  | cons b rest => simp [served, room?, hroom]

/-- A read that a signal made fail changes nothing. -/
theorem served_of_signal (hroom : slot.buffer.isFull = false) {e : SystemError}
    (hsignal : e.isInterrupted = true) :
    slot.served i c (.error e) = (slot, [.reading i c slot.buffer.remaining]) := by
  simp [served, room?, hroom, hsignal]

/-- Any other failure of a read clears the buffer. -/
theorem served_of_failure (hroom : slot.buffer.isFull = false) {e : SystemError}
    (hsignal : e.isInterrupted = false) :
    slot.served i c (.error e) =
      (slot.clear, [.reading i c slot.buffer.remaining, .readFailed i e]) := by
  simp [served, room?, hroom, hsignal]

end

/-- Serving a slot reads its connection, unless the buffer is full. -/
theorem reads_served (slot : Slot) (i : Fin maxClients) (c : Connection)
    (answer : Except SystemError (List UInt8)) :
    ServerNotice.reads (slot.served i c answer).2 = if slot.buffer.isFull then [] else [c] := by
  by_cases hfull : slot.buffer.isFull
  · simp [served, room?, hfull, ServerNotice.reads, ServerNotice.read?]
  · match answer with
    | .ok [] => simp [served, room?, hfull, ServerNotice.reads, ServerNotice.read?]
    | .ok (b :: bytes) =>
        simp [served, room?, hfull, ServerNotice.reads, ServerNotice.read?, List.filterMap_map,
          Function.comp_def]
    | .error e =>
        by_cases hsignal : e.isInterrupted <;>
          simp [served, room?, hfull, hsignal, ServerNotice.reads, ServerNotice.read?]

/-- Serving a slot tells of no accept. -/
theorem not_admitted_served (slot : Slot) (i : Fin maxClients) (c : Connection)
    (answer : Except SystemError (List UInt8)) :
    ∀ notice ∈ (slot.served i c answer).2,
      notice.accepted? = none ∧ notice.rejected? = none := by
  unfold served
  split
  · simp [ServerNotice.accepted?, ServerNotice.rejected?]
  · split
    · simp [ServerNotice.accepted?, ServerNotice.rejected?]
    · simp [ServerNotice.accepted?, ServerNotice.rejected?]
    · split <;> simp [ServerNotice.accepted?, ServerNotice.rejected?]

/-- Whatever was read before, the messages that serving a slot tells of are delivered for its
connection. -/
theorem delivered_served (slot : Slot) (i : Fin maxClients) (c : Connection)
    (answer : Except SystemError (List UInt8)) (last? : Option Connection) :
    ∃ next?, ∀ rest, ServerNotice.delivered last? ((slot.served i c answer).2 ++ rest) =
      (ServerNotice.messages (slot.served i c answer).2).map (c, ·) ++
        ServerNotice.delivered next? rest := by
  by_cases hfull : slot.buffer.isFull
  · -- no reading is told of, so later notices follow the same one as before
    refine ⟨last?, fun rest => ?_⟩
    cases last? <;> simp [served, room?, hfull, ServerNotice.delivered,
      ServerNotice.messages_cons, ServerNotice.line?]
  · refine ⟨some c, fun rest => ?_⟩
    match answer with
    | .ok [] =>
        simp [served, room?, hfull, ServerNotice.delivered,
          ServerNotice.messages_cons, ServerNotice.line?]
    | .ok (b :: bytes) =>
        simp [served, room?, hfull, ServerNotice.delivered, ServerNotice.delivered_map_line,
          ServerNotice.messages_cons, ServerNotice.line?]
    | .error e =>
        by_cases hsignal : e.isInterrupted <;>
          simp [served, room?, hfull, hsignal, ServerNotice.delivered,
            ServerNotice.messages_cons, ServerNotice.line?]

end Slot

namespace LineServer

/-! ## Slots -/

/-- In a server without clients every slot is free. -/
theorem slot_empty (i : Fin maxClients) : empty.slot i = .free := by
  simp [LineServer.slot, empty]

/-- A slot has the content that it was given. -/
theorem slot_set_slot_same (s : LineServer) (i : Fin maxClients) (slot : Slot) :
    (s.setSlot i slot).slot i = slot := by
  simp [LineServer.slot, setSlot]

/-- Another content of a slot leaves the other slots. -/
theorem slot_set_slot_other (s : LineServer) {i j : Fin maxClients} (slot : Slot) (h : i ≠ j) :
    (s.setSlot i slot).slot j = s.slot j := by
  have : (i : Nat) ≠ j := fun heq => h (Fin.ext heq)
  simp [LineServer.slot, setSlot, Vector.getElem_set_ne, this]

/-- A slot that is given what it has leaves the server as it is. -/
theorem set_slot_self (s : LineServer) (i : Fin maxClients) : s.setSlot i (s.slot i) = s := by
  simp [LineServer.slot, setSlot]

/-- The clients are the connections of the slots that have one. -/
theorem mem_clients {s : LineServer} {i : Fin maxClients} {c : Connection} :
    (i, c) ∈ s.clients ↔ (s.slot i).stream = some c := by
  simp [clients]

/-- The clients are listed by slot, each slot once. -/
theorem nodup_clients (s : LineServer) : (s.clients.map Prod.fst).Nodup := by
  rw [clients, List.map_filterMap]
  refine (List.nodup_finRange maxClients).filterMap ?_
  intro i j k hi hj
  simp only [Option.map_map, Option.mem_def, Option.map_eq_some_iff, Function.comp_apply] at hi hj
  obtain ⟨_, _, rfl⟩ := hi
  obtain ⟨_, _, rfl⟩ := hj
  rfl

/-- The ready clients are some of the clients, in the same order. -/
theorem ready_clients_sublist (s : LineServer) (r : Readiness) :
    (s.readyClients r).Sublist s.clients := by
  have := (s.clients.zipIdx.filter_sublist (p := fun entry => r.isReady (entry.2 + 1))).map Prod.fst
  simpa [readyClients] using this

/-- A ready client is the connection of its slot. -/
theorem mem_clients_of_ready {s : LineServer} {r : Readiness} {i : Fin maxClients}
    {c : Connection} (h : (i, c) ∈ s.readyClients r) : (s.slot i).stream = some c :=
  mem_clients.1 ((s.ready_clients_sublist r).subset h)

/-- A client is ready because the wait reports its connection ready, among what it waited for. -/
theorem place_of_ready {s : LineServer} {r : Readiness} {i : Fin maxClients} {c : Connection}
    (h : (i, c) ∈ s.readyClients r) :
    ∃ place, s.watched[place]? = some (.client c) ∧ r.isReady place = true := by
  obtain ⟨⟨entry, place⟩, hmem, heq⟩ := List.mem_map.1 h
  obtain rfl : entry = (i, c) := heq
  obtain ⟨hplace, hready⟩ := List.mem_filter.1 hmem
  have hentry : s.clients[place]? = some (i, c) := List.mem_zipIdx_iff_getElem?.1 hplace
  refine ⟨place + 1, ?_, hready⟩
  simp [watched, hentry]

/-- A client whose connection the wait reports ready is ready. -/
theorem ready_of_place {s : LineServer} {r : Readiness} {place : Nat} {c : Connection}
    (hwatched : s.watched[place]? = some (.client c)) (hready : r.isReady place = true) :
    ∃ i, (i, c) ∈ s.readyClients r := by
  cases place with
  | zero => cases hwatched
  | succ place =>
      obtain ⟨⟨i, d⟩, hentry, heq⟩ : ∃ entry, s.clients[place]? = some entry ∧
          Watched.client entry.2 = .client c := by
        simpa [watched] using hwatched
      obtain rfl : d = c := Watched.client.inj heq
      exact ⟨i, List.mem_map.2 ⟨((i, d), place),
        List.mem_filter.2 ⟨List.mem_zipIdx_iff_getElem?.2 hentry, hready⟩, rfl⟩⟩

/-- No slot is ready twice. -/
theorem nodup_ready_clients (s : LineServer) (r : Readiness) :
    ((s.readyClients r).map Prod.fst).Nodup :=
  ((s.ready_clients_sublist r).map Prod.fst).nodup s.nodup_clients

/-- The lowest free slot is free. -/
theorem is_free_of_first_free {s : LineServer} {i : Fin maxClients} (h : s.firstFree? = some i) :
    (s.slot i).stream = none := by
  have := List.find?_some h
  simpa [Slot.isFree] using this

/-! ## Accepting -/

/-- Accepting queues no message. -/
theorem queue_enroll (s : LineServer) (answer : Except SystemError (Connection × Address)) :
    (s.enroll answer).1.queue = s.queue := by
  cases answer with
  | error e => rfl
  | ok accepted =>
      obtain ⟨c, peer⟩ := accepted
      simp only [enroll]
      split <;> rfl

/-- Accepting leaves the slots of all clients as they are. -/
theorem slot_enroll_of_client {s : LineServer} {i : Fin maxClients} {c : Connection}
    (h : (s.slot i).stream = some c) (answer : Except SystemError (Connection × Address)) :
    (s.enroll answer).1.slot i = s.slot i := by
  cases answer with
  | error e => rfl
  | ok accepted =>
      obtain ⟨d, peer⟩ := accepted
      cases hfree : s.firstFree? with
      | none => simp [enroll, hfree]
      | some j =>
          simp only [enroll, hfree]
          apply slot_set_slot_other
          rintro rfl
          rw [is_free_of_first_free hfree] at h
          cases h

/-! ## Serving -/

/-- Serving a slot reads its own connection, changes that slot and queues the messages that it
tells of. -/
theorem serve_eq {s : LineServer} {i : Fin maxClients} {c : Connection}
    (h : (s.slot i).stream = some c) (read : Connection → Except SystemError (List UInt8)) :
    serve read s i =
      ({ s.setSlot i ((s.slot i).served i c (read c)).1 with
          queue := s.queue ++ ServerNotice.messages ((s.slot i).served i c (read c)).2 },
        ((s.slot i).served i c (read c)).2) := by
  have hquiet (notice : ServerNotice) (h : notice.line? = none) (rest : List ServerNotice) :
      ServerNotice.messages (notice :: rest) = ServerNotice.messages rest := by
    rw [ServerNotice.messages_cons, h]
    rfl
  cases hroom : (s.slot i).room? with
  | none =>
      simp only [serve, Slot.served, h, hroom]
      rw [hquiet _ rfl, ServerNotice.messages_nil, List.append_nil]
      rfl
  | some room =>
      match hread : read c with
      | .ok [] =>
          simp only [serve, Slot.served, h, hroom, hread]
          rw [hquiet _ rfl, hquiet _ rfl, ServerNotice.messages_nil, List.append_nil]
          rfl
      | .ok (b :: bytes) =>
          simp only [serve, Slot.served, h, hroom, hread, receive]
          rw [hquiet _ rfl, ServerNotice.messages_map_line]
      | .error e =>
          simp only [serve, Slot.served, h, hroom, hread]
          split
          · rw [hquiet _ rfl, ServerNotice.messages_nil, List.append_nil, set_slot_self]
          · rw [hquiet _ rfl, hquiet _ rfl, ServerNotice.messages_nil, List.append_nil]
            rfl

/-- Serving a slot leaves the others as they are. -/
theorem slot_serve_other (read : Connection → Except SystemError (List UInt8)) (s : LineServer)
    {i j : Fin maxClients} (h : i ≠ j) : (serve read s i).1.slot j = s.slot j := by
  cases hstream : (s.slot i).stream with
  | none => simp only [serve, hstream]
  | some c =>
      rw [serve_eq hstream]
      exact slot_set_slot_other s _ h

/-- Serving slots, each once, with the connections that they hold makes of each what serving it
alone would have made of it at the start, and leaves the others as they are. -/
theorem serve_all_eq (read : Connection → Except SystemError (List UInt8))
    (ready : List (Fin maxClients × Connection)) (s : LineServer)
    (hready : (ready.map Prod.fst).Nodup)
    (hheld : ∀ entry ∈ ready, (s.slot entry.1).stream = some entry.2) :
    (serveAll read (ready.map Prod.fst) s).2 =
        ready.flatMap (fun entry => ((s.slot entry.1).served entry.1 entry.2 (read entry.2)).2) ∧
      (serveAll read (ready.map Prod.fst) s).1.queue =
        s.queue ++ ServerNotice.messages (serveAll read (ready.map Prod.fst) s).2 ∧
      (∀ entry ∈ ready, (serveAll read (ready.map Prod.fst) s).1.slot entry.1 =
        ((s.slot entry.1).served entry.1 entry.2 (read entry.2)).1) ∧
      ∀ j, j ∉ ready.map Prod.fst →
        (serveAll read (ready.map Prod.fst) s).1.slot j = s.slot j := by
  -- serving the first slot does not touch those of the rest, so they are as at the start
  induction ready generalizing s with
  | nil => simp [serveAll]
  | cons entry rest ih =>
      obtain ⟨i, c⟩ := entry
      rw [List.map_cons] at hready ⊢
      obtain ⟨hfirst, hrest⟩ := List.nodup_cons.1 hready
      have hserve := serve_eq (hheld (i, c) List.mem_cons_self) read
      have hself : (serve read s i).1.slot i = ((s.slot i).served i c (read c)).1 := by
        rw [hserve]
        exact slot_set_slot_same s i _
      have hne : ∀ other ∈ rest, i ≠ other.1 := fun other hmem heq =>
        hfirst (List.mem_map.2 ⟨other, hmem, heq.symm⟩)
      have hkept : ∀ other ∈ rest, (serve read s i).1.slot other.1 = s.slot other.1 :=
        fun other hmem => slot_serve_other read s (hne other hmem)
      have hheldRest : ∀ other ∈ rest,
          ((serve read s i).1.slot other.1).stream = some other.2 := by
        intro other hmem
        rw [hkept other hmem]
        exact hheld other (List.mem_cons_of_mem _ hmem)
      obtain ⟨hnotices, hqueue, hslots, hothers⟩ := ih (serve read s i).1 hrest hheldRest
      have htail : rest.flatMap (fun entry =>
            (((serve read s i).1.slot entry.1).served entry.1 entry.2 (read entry.2)).2) =
          rest.flatMap (fun entry =>
            ((s.slot entry.1).served entry.1 entry.2 (read entry.2)).2) :=
        List.flatMap_congr fun other hmem => by rw [hkept other hmem]
      refine ⟨?_, ?_, ?_, ?_⟩
      · rw [serveAll, hnotices, htail, hserve, List.flatMap_cons]
      · rw [serveAll, hqueue, ServerNotice.messages_append, ← List.append_assoc, hserve]
      · intro other hmem
        rcases List.mem_cons.1 hmem with rfl | hmem
        · exact (hothers i hfirst).trans hself
        · rw [← hkept other hmem]
          exact hslots other hmem
      · intro j hj
        rw [List.mem_cons, not_or] at hj
        exact (hothers j hj.2).trans (slot_serve_other read s (Ne.symm hj.1))

/-! ## Polling -/

/-- What a poll tells of the ready clients, each served as it was at the start. -/
def servedNotices (s : LineServer) (r : Readiness)
    (read : Connection → Except SystemError (List UInt8)) : List ServerNotice :=
  (s.readyClients r).flatMap fun entry =>
    ((s.slot entry.1).served entry.1 entry.2 (read entry.2)).2

/-- The server after the accept of a poll, and what is told of it. -/
def admitted (s : LineServer) (r : Readiness)
    (accept : Except SystemError (Connection × Address)) : LineServer × List ServerNotice :=
  if r.isReady 0 then s.enroll accept else (s, [])

/-- The accept of a poll leaves the slots of all clients as they are. -/
theorem slot_admitted_of_client {s : LineServer} {i : Fin maxClients} {c : Connection}
    (h : (s.slot i).stream = some c) (r : Readiness)
    (accept : Except SystemError (Connection × Address)) :
    (s.admitted r accept).1.slot i = s.slot i := by
  unfold admitted
  split
  · exact slot_enroll_of_client h accept
  · rfl

/-- The accept of a poll queues no message. -/
theorem queue_admitted (s : LineServer) (r : Readiness)
    (accept : Except SystemError (Connection × Address)) :
    (s.admitted r accept).1.queue = s.queue := by
  unfold admitted
  split
  · exact queue_enroll s accept
  · rfl

/-- A failed wait leaves the server as it is, and nothing is accepted or served. -/
theorem poll_of_wait_error {s : LineServer} {a : PollAnswers} {e : SystemError}
    (h : a.wait = .error e) :
    (s.poll a).server = s ∧
      ((s.poll a).notices = [.interrupted] ∨ (s.poll a).notices = [.waitFailed e]) := by
  unfold poll
  rw [h]
  by_cases hsignal : e.isInterrupted
  · simp [hsignal]
  · simp [hsignal]

/-- A poll whose wait succeeds accepts, then serves every ready client as it was at the start. -/
theorem poll_of_wait_ok {s : LineServer} {a : PollAnswers} {r : Readiness} (h : a.wait = .ok r) :
    (s.poll a).notices = (s.admitted r a.accept).2 ++ s.servedNotices r a.read ∧
      (s.poll a).server.queue =
        s.queue ++ ServerNotice.messages (s.servedNotices r a.read) ∧
      (∀ entry ∈ s.readyClients r, (s.poll a).server.slot entry.1 =
        ((s.slot entry.1).served entry.1 entry.2 (a.read entry.2)).1) ∧
      ∀ j, j ∉ (s.readyClients r).map Prod.fst →
        (s.poll a).server.slot j = (s.admitted r a.accept).1.slot j := by
  have hkept : ∀ entry ∈ s.readyClients r,
      (s.admitted r a.accept).1.slot entry.1 = s.slot entry.1 := fun entry hmem =>
    slot_admitted_of_client (mem_clients_of_ready hmem) r a.accept
  have hheld : ∀ entry ∈ s.readyClients r,
      ((s.admitted r a.accept).1.slot entry.1).stream = some entry.2 := by
    intro entry hmem
    rw [hkept entry hmem]
    exact mem_clients_of_ready hmem
  have hpoll : (s.poll a).server =
        (serveAll a.read ((s.readyClients r).map Prod.fst) (s.admitted r a.accept).1).1 ∧
      (s.poll a).notices = (s.admitted r a.accept).2 ++
        (serveAll a.read ((s.readyClients r).map Prod.fst) (s.admitted r a.accept).1).2 := by
    simp only [poll, h, admitted, and_self]
  obtain ⟨hserver, hnotices⟩ := hpoll
  obtain ⟨htold, hqueued, hserved, hothers⟩ :=
    serve_all_eq a.read (s.readyClients r) (s.admitted r a.accept).1 (s.nodup_ready_clients r)
      hheld
  have hsame : (serveAll a.read ((s.readyClients r).map Prod.fst) (s.admitted r a.accept).1).2 =
      s.servedNotices r a.read := by
    rw [htold, servedNotices]
    exact List.flatMap_congr fun entry hmem => by rw [hkept entry hmem]
  rw [hserver, hnotices]
  refine ⟨by rw [hsame], by rw [hqueued, queue_admitted, hsame], ?_, hothers⟩
  intro entry hmem
  rw [hserved entry hmem, hkept entry hmem]

/-- The accept of a poll takes nothing, or gives a connection the lowest free slot, or rejects
it. -/
theorem admitted_cases (s : LineServer) (r : Readiness)
    (accept : Except SystemError (Connection × Address)) :
    ((s.admitted r accept).1 = s ∧
        ((s.admitted r accept).2 = [] ∨ ∃ e, (s.admitted r accept).2 = [.acceptFailed e])) ∨
      (∃ c peer i, accept = .ok (c, peer) ∧ s.firstFree? = some i ∧
        s.admitted r accept = (s.setSlot i (.occupied c peer), [.accepted c, .added i c])) ∨
      ∃ c peer, accept = .ok (c, peer) ∧ s.firstFree? = none ∧
        s.admitted r accept = (s, [.accepted c, .rejected c]) := by
  unfold admitted
  split
  · match accept with
    | .error e =>
        left
        simp only [enroll]
        split <;> simp
    | .ok (c, peer) =>
        right
        cases hfree : s.firstFree? with
        | none => exact .inr ⟨c, peer, rfl, rfl, by simp only [enroll, hfree]⟩
        | some i => exact .inl ⟨c, peer, i, rfl, rfl, by simp only [enroll, hfree]⟩
  · exact .inl ⟨rfl, .inl rfl⟩

/-- The notices of an accept deliver nothing. -/
theorem delivered_admitted (s : LineServer) (r : Readiness)
    (accept : Except SystemError (Connection × Address)) (rest : List ServerNotice) :
    ServerNotice.delivered none ((s.admitted r accept).2 ++ rest) =
      ServerNotice.delivered none rest := by
  rcases s.admitted_cases r accept with ⟨_, h | ⟨e, h⟩⟩ | ⟨c, peer, i, _, _, h⟩ | ⟨c, peer, _, _, h⟩
  all_goals simp [h, ServerNotice.delivered]

/-- The notices of an accept tell of no reading. -/
theorem reads_admitted (s : LineServer) (r : Readiness)
    (accept : Except SystemError (Connection × Address)) :
    ServerNotice.reads (s.admitted r accept).2 = [] := by
  rcases s.admitted_cases r accept with ⟨_, h | ⟨e, h⟩⟩ | ⟨c, peer, i, _, _, h⟩ | ⟨c, peer, _, _, h⟩
  all_goals simp [h, ServerNotice.reads, ServerNotice.read?]

/-- The ready clients are read in order, but for those whose buffer is full. -/
theorem reads_served_notices (s : LineServer) (r : Readiness)
    (read : Connection → Except SystemError (List UInt8)) :
    ServerNotice.reads (s.servedNotices r read) =
      ((s.readyClients r).filter fun entry => !(s.slot entry.1).buffer.isFull).map Prod.snd := by
  unfold servedNotices
  induction s.readyClients r with
  | nil => rfl
  | cons entry rest ih =>
      rw [List.flatMap_cons, ServerNotice.reads_append, Slot.reads_served, ih, List.filter_cons]
      cases (s.slot entry.1).buffer.isFull <;> simp

/-- The connections that a poll reads are those of ready clients whose buffer is not full. -/
theorem reads_poll_eq {s : LineServer} {a : PollAnswers} {r : Readiness} (h : a.wait = .ok r) :
    ServerNotice.reads (s.poll a).notices =
      ((s.readyClients r).filter fun entry => !(s.slot entry.1).buffer.isFull).map Prod.snd := by
  rw [(poll_of_wait_ok h).1, ServerNotice.reads_append, reads_admitted, reads_served_notices,
    List.nil_append]

/-- The messages that the ready clients complete are delivered for their connections. -/
theorem delivered_served_notices (s : LineServer) (r : Readiness)
    (read : Connection → Except SystemError (List UInt8)) (last? : Option Connection) :
    ServerNotice.delivered last? (s.servedNotices r read) =
      (s.readyClients r).flatMap fun entry =>
        (ServerNotice.messages
          ((s.slot entry.1).served entry.1 entry.2 (read entry.2)).2).map (entry.2, ·) := by
  unfold servedNotices
  induction s.readyClients r generalizing last? with
  | nil => cases last? <;> rfl
  | cons entry rest ih =>
      obtain ⟨next?, hnext⟩ :=
        (s.slot entry.1).delivered_served entry.1 entry.2 (read entry.2) last?
      rw [List.flatMap_cons, hnext, ih, List.flatMap_cons]

end LineServer

end EngineLink
