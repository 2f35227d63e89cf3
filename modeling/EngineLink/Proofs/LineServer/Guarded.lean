import EngineLink.Proofs.LineServer.Undisturbed

/-!
# Which reads a poll makes

A poll reads only connections that had a slot before its wait and that the wait reports ready, each
of them once, and only into cells that are there. So a read does not block, and a read that brings
nothing means the end of the connection. Read `LineServer.reading_poll` first: the guard in front
of every read. `Session.reads_guarded` is the result.
-/

namespace EngineLink

namespace Slot

variable {slot : Slot} {i j : Fin maxClients} {c d : Connection} {answer : Reading}

/-- Serving a slot reads its connection, into the room of a buffer that is not full. -/
theorem reading_served {room : Nat}
    (h : ServerNotice.reading j d room ∈ (slot.served i c answer).2) :
    j = i ∧ d = c ∧ slot.buffer.isFull = false ∧ room = slot.buffer.remaining := by
  cases hfull : slot.buffer.isFull with
  | true =>
      rw [served_of_full i c hfull] at h
      simp at h
  | false =>
      match answer with
      | .ok [] =>
          rw [served_of_end i c hfull] at h
          simpa using h
      | .ok (b :: bytes) =>
          rw [served_of_bytes i c hfull (List.cons_ne_nil b bytes)] at h
          simpa using h
      | .error e =>
          cases hsignal : e.isInterrupted with
          | true =>
              rw [served_of_signal i c hfull hsignal] at h
              simpa using h
          | false =>
              rw [served_of_failure i c hfull hsignal] at h
              simpa using h

/-- Serving a slot tells of the end of its connection only if a read brought nothing, and then the
buffer was not full. -/
theorem disconnected_served
    (h : ServerNotice.disconnected j d ∈ (slot.served i c answer).2) :
    j = i ∧ d = c ∧ slot.buffer.isFull = false ∧ answer = .ok [] := by
  cases hfull : slot.buffer.isFull with
  | true =>
      rw [served_of_full i c hfull] at h
      simp at h
  | false =>
      match answer with
      | .ok [] =>
          rw [served_of_end i c hfull] at h
          simpa using h
      | .ok (b :: bytes) =>
          rw [served_of_bytes i c hfull (List.cons_ne_nil b bytes)] at h
          simp at h
      | .error e =>
          cases hsignal : e.isInterrupted with
          | true =>
              rw [served_of_signal i c hfull hsignal] at h
              simp at h
          | false =>
              rw [served_of_failure i c hfull hsignal] at h
              simp at h

/-- Serving the slot of a client keeps the client, unless a read brought nothing, and then the
buffer was not full. -/
theorem served_of_held (hheld : slot.stream = some c) (i : Fin maxClients) (answer : Reading) :
    (slot.served i c answer).1.stream = some c ∨
      (slot.served i c answer).1 = .free ∧ slot.buffer.isFull = false ∧ answer = .ok [] := by
  cases hfull : slot.buffer.isFull with
  | true =>
      rw [served_of_full i c hfull]
      exact .inl hheld
  | false =>
      match answer with
      | .ok [] =>
          rw [served_of_end i c hfull]
          exact .inr ⟨rfl, rfl, rfl⟩
      | .ok (b :: bytes) =>
          rw [served_of_bytes i c hfull (List.cons_ne_nil b bytes)]
          exact .inl hheld
      | .error e =>
          cases hsignal : e.isInterrupted with
          | true =>
              rw [served_of_signal i c hfull hsignal]
              exact .inl hheld
          | false =>
              rw [served_of_failure i c hfull hsignal]
              exact .inl hheld

/-- Serving a slot frees it only if a read brought nothing, and then the buffer was not full. -/
theorem freed_served (hheld : slot.stream = some c)
    (h : (slot.served i c answer).1.stream = none) :
    slot.buffer.isFull = false ∧ answer = .ok [] := by
  rcases served_of_held hheld i answer with hkept | ⟨_, hroom, hend⟩
  · exact absurd (hkept.symm.trans h) (Option.some_ne_none c)
  · exact ⟨hroom, hend⟩

/-- A slot whose buffer is full is served without regard to what a read would give. -/
theorem served_congr {other : Reading} (h : slot.buffer.isFull = false → other = answer) :
    slot.served i c other = slot.served i c answer := by
  cases hfull : slot.buffer.isFull with
  | true => rw [served_of_full i c hfull, served_of_full i c hfull]
  | false => rw [h hfull]

end Slot

namespace LineServer

variable {s : LineServer} {a : PollAnswers}

/-- A poll tells of its wait if that fails, and else of its accept and of the ready clients. -/
theorem notice_cases {notice : ServerNotice} (h : notice ∈ (s.poll a).notices) :
    (∃ e, a.wait = .error e ∧ (notice = .interrupted ∨ notice = .waitFailed e)) ∨
      ∃ r, a.wait = .ok r ∧ (notice ∈ (s.admitted r a.accept).2 ∨
        ∃ i c, (i, c) ∈ s.readyClients r ∧ notice ∈ ((s.slot i).served i c (a.read c)).2) := by
  cases hwait : a.wait with
  | error e =>
      rcases (poll_of_wait_error hwait).2 with hnotices | hnotices
      · rw [hnotices, List.mem_singleton] at h
        exact .inl ⟨e, rfl, .inl h⟩
      · rw [hnotices, List.mem_singleton] at h
        exact .inl ⟨e, rfl, .inr h⟩
  | ok r =>
      rw [(poll_of_wait_ok hwait).1, List.mem_append] at h
      rcases h with h | h
      · exact .inr ⟨r, rfl, .inl h⟩
      · obtain ⟨⟨i, c⟩, hready, hnotice⟩ := List.mem_flatMap.1 h
        exact .inr ⟨r, rfl, .inr ⟨i, c, hready, hnotice⟩⟩

/-- The accept of a poll tells of no reading and of no end of a connection. -/
theorem quiet_admitted (s : LineServer) (r : Readiness)
    (accept : Except SystemError (Connection × Address)) (i : Fin maxClients) (c : Connection)
    (room : Nat) : ServerNotice.reading i c room ∉ (s.admitted r accept).2 ∧
      ServerNotice.disconnected i c ∉ (s.admitted r accept).2 := by
  rcases s.admitted_cases r accept with ⟨_, h | ⟨e, h⟩⟩ | ⟨d, peer, j, _, _, h⟩ | ⟨d, peer, _, _, h⟩
  all_goals simp [h]

/-- A poll reads a connection only if the wait succeeded and reported it ready, and into the room
of a buffer that is not full. -/
theorem reading_poll {i : Fin maxClients} {c : Connection} {room : Nat}
    (h : ServerNotice.reading i c room ∈ (s.poll a).notices) :
    ∃ r, a.wait = .ok r ∧ (i, c) ∈ s.readyClients r ∧ (s.slot i).buffer.isFull = false ∧
      room = (s.slot i).buffer.remaining := by
  rcases notice_cases h with ⟨_, _, h | h⟩ | ⟨r, hwait, h | ⟨j, d, hready, h⟩⟩
  · cases h
  · cases h
  · exact absurd h (quiet_admitted s r a.accept i c room).1
  · obtain ⟨rfl, rfl, hroom⟩ := Slot.reading_served h
    exact ⟨r, hwait, hready, hroom⟩

/-- A poll takes a connection for ended only if a read of it brought nothing, into the room of a
buffer that is not full. -/
theorem disconnected_poll {i : Fin maxClients} {c : Connection}
    (h : ServerNotice.disconnected i c ∈ (s.poll a).notices) :
    ∃ r, a.wait = .ok r ∧ (i, c) ∈ s.readyClients r ∧ (s.slot i).buffer.isFull = false ∧
      a.read c = .ok [] := by
  rcases notice_cases h with ⟨_, _, h | h⟩ | ⟨r, hwait, h | ⟨j, d, hready, h⟩⟩
  · cases h
  · cases h
  · exact absurd h (quiet_admitted s r a.accept i c 0).2
  · obtain ⟨rfl, rfl, hend⟩ := Slot.disconnected_served h
    exact ⟨r, hwait, hready, hend⟩

/-- A poll accepts the connection that the system gives it. -/
theorem accepted_poll {c : Connection} (h : ServerNotice.accepted c ∈ (s.poll a).notices) :
    ∃ peer, a.accept = .ok (c, peer) := by
  rcases notice_cases h with ⟨_, _, h | h⟩ | ⟨r, _, h | ⟨i, d, _, h⟩⟩
  · cases h
  · cases h
  · rcases s.admitted_cases r a.accept with ⟨_, hnone | ⟨e, hfailed⟩⟩ |
      ⟨d, peer, i, haccept, _, hadded⟩ | ⟨d, peer, haccept, _, hrejected⟩
    · rw [hnone] at h
      cases h
    · rw [hfailed] at h
      simp at h
    · rw [hadded] at h
      obtain rfl : c = d := by simpa using h
      exact ⟨peer, haccept⟩
    · rw [hrejected] at h
      obtain rfl : c = d := by simpa using h
      exact ⟨peer, haccept⟩
  · exact absurd (Slot.not_admitted_served _ _ _ _ _ h).1 (by simp [ServerNotice.accepted?])

/-- No connection is read twice in a poll. -/
theorem nodup_reads_poll (hdistinct : s.Distinct) (a : PollAnswers) :
    (ServerNotice.reads (s.poll a).notices).Nodup := by
  cases hwait : a.wait with
  | error e =>
      rcases (poll_of_wait_error (s := s) hwait).2 with h | h
      · rw [h]
        exact List.nodup_nil
      · rw [h]
        exact List.nodup_nil
  | ok r =>
      rw [reads_poll_eq hwait]
      have hready : (s.readyClients r).Nodup := List.Nodup.of_map _ (s.nodup_ready_clients r)
      refine List.Nodup.map_on ?_ (hready.filter _)
      rintro ⟨i, c⟩ hi ⟨j, d⟩ hj heq
      obtain rfl : c = d := heq
      have hi := mem_clients_of_ready (List.mem_of_mem_filter hi)
      have hj := mem_clients_of_ready (List.mem_of_mem_filter hj)
      rw [hdistinct i j c hi hj]

/-- Serving a slot depends on the read of its own connection alone, and on that only if the
buffer is not full. -/
theorem serve_congr {read other : Connection → Reading} {s : LineServer} {i : Fin maxClients}
    (h : ∀ c, (s.slot i).stream = some c → (s.slot i).buffer.isFull = false →
      other c = read c) :
    serve other s i = serve read s i := by
  cases hstream : (s.slot i).stream with
  | none => simp only [serve, hstream]
  | some c => rw [serve_eq hstream, serve_eq hstream, Slot.served_congr (h c hstream)]

/-- Serving slots, each once, depends on the reads of those whose buffer is not full alone. -/
theorem serve_all_congr {read other : Connection → Reading} {ready : List (Fin maxClients)}
    {s : LineServer} (hready : ready.Nodup)
    (h : ∀ i ∈ ready, ∀ c, (s.slot i).stream = some c → (s.slot i).buffer.isFull = false →
      other c = read c) :
    serveAll other ready s = serveAll read ready s := by
  induction ready generalizing s with
  | nil => rfl
  | cons i rest ih =>
      rw [List.nodup_cons] at hready
      have hfirst : serve other s i = serve read s i := serve_congr (h i List.mem_cons_self)
      have hrest : serveAll other rest (serve read s i).1 =
          serveAll read rest (serve read s i).1 := by
        refine ih hready.2 fun j hj => ?_
        -- the slot served first is none of those behind it
        have hne : i ≠ j := fun heq => hready.1 (heq ▸ hj)
        rw [slot_serve_other read s hne]
        exact h j (List.mem_cons_of_mem _ hj)
      simp only [serveAll, hfirst, hrest]

/-- A poll depends on the reads that it tells of alone. -/
theorem poll_congr (s : LineServer) (a : PollAnswers) {read : Connection → Reading}
    (h : ∀ c ∈ ServerNotice.reads (s.poll a).notices, read c = a.read c) :
    s.poll { a with read := read } = s.poll a := by
  cases hwait : a.wait with
  | error e => simp only [poll, hwait]
  | ok r =>
      have hserved :
          serveAll read ((s.readyClients r).map Prod.fst) (s.admitted r a.accept).1 =
            serveAll a.read ((s.readyClients r).map Prod.fst) (s.admitted r a.accept).1 := by
        refine serve_all_congr (s.nodup_ready_clients r) fun i hi d hd hroom => ?_
        obtain ⟨⟨i, c⟩, hready, rfl⟩ := List.mem_map.1 hi
        have hheld := mem_clients_of_ready hready
        rw [slot_admitted_of_client hheld r a.accept] at hd hroom
        obtain rfl : c = d := Option.some.inj (hheld.symm.trans hd)
        refine h c ?_
        rw [reads_poll_eq hwait]
        exact List.mem_map.2 ⟨(i, c), List.mem_filter.2 ⟨hready, by rw [hroom]; rfl⟩, rfl⟩
      unfold admitted at hserved
      simp only [poll, hwait, hserved]

end LineServer

/-! ## Reads on a network -/

/-- With nothing to read and no end in sight a read of a connection blocks. -/
def Inflow.Blocks (f : Inflow) : Prop :=
  f.unread = [] ∧ f.ending = .unended

/-- What the wait reports ready does not block. -/
theorem Inflow.not_blocks_of_ready {f : Inflow} (h : f.report.isReady = true) : ¬f.Blocks := by
  rintro ⟨hunread, hunended⟩
  simp [report, Report.isReady, hunread, hunended] at h

/-- A read into some room brings nothing only at the end of a connection, and changes nothing
there. -/
theorem Inflow.read_end {f : Inflow} {room : Nat} (hroom : 0 < room)
    (h : (f.read room).1 = .ok []) :
    f.unread = [] ∧ f.ending = .closed ∧ (f.read room).2 = f := by
  unfold read at h ⊢
  split at h
  · next hunread =>
      have hnone : f.unread.take room = [] := Except.ok.inj h
      rcases List.take_eq_nil_iff.1 hnone with hzero | hnil
      · exact absurd hzero (Nat.ne_of_gt hroom)
      · exact absurd hnil hunread
  · next hunread =>
      have hunread : f.unread = [] := by simpa using hunread
      split at h
      · cases h
      · next hclosed => exact ⟨hunread, hclosed, by simp [hunread]⟩
      · cases h

namespace Chance

/-- What the system answers to a poll whose wait comes out like this, whatever is ready. -/
def answersTo (k : Chance) (w : Loopback) (s : LineServer) (wait : Except SystemError Readiness) :
    PollAnswers :=
  { k.answers w s with wait := wait }

/-- A reading into some room brings nothing only at the end of a connection, and changes nothing
there. -/
theorem reading_end {k : Chance} {w : Loopback} {s : LineServer} {c : Connection}
    (hroom : 0 < s.roomFor c) (h : (k.reading w s c).1 = .ok []) :
    (w.flow c).unread = [] ∧ (w.flow c).ending = .closed ∧ (k.reading w s c).2 = w.flow c := by
  unfold reading at h ⊢
  split at h
  · cases h
  · exact Inflow.read_end (by omega) h

end Chance

namespace Session

/-- A wait reports a descriptor ready only if it is. -/
def Honest (x : Session) (wait : Except SystemError Readiness) : Prop :=
  ∀ r, wait = .ok r → ∀ place watched, x.server.watched[place]? = some watched →
    r.isReady place = true → (x.network.report watched).isReady = true

/-- The room of a buffer that is not full is made of cells behind its cursor. -/
theorem room_of_held {x : Session} (h : x.Sound) {i : Fin maxClients} {c : Connection}
    (hheld : (x.server.slot i).stream = some c)
    (hroom : (x.server.slot i).buffer.isFull = false) :
    (x.server.slot i).buffer.remaining = (x.server.slot i).buffer.spare.length ∧
      0 < (x.server.slot i).buffer.remaining := by
  refine ⟨(h.buffered i c hheld).wellFormed.length_spare.symm, ?_⟩
  simpa [LineBuffer.isFull, Nat.pos_iff_ne_zero] using hroom

/-- There is room for the read of a client whose buffer is not full. -/
theorem room_for_pos {x : Session} (h : x.Sound) {i : Fin maxClients} {c : Connection}
    (hheld : (x.server.slot i).stream = some c)
    (hroom : (x.server.slot i).buffer.isFull = false) : 0 < x.server.roomFor c := by
  rw [LineServer.room_for_eq h.distinct hheld]
  exact (room_of_held h hheld hroom).2

/-- In every session, whatever the wait of a poll reports: a connection that the poll reads had its
slot before the wait, the wait reported it ready, there are cells to read into, and it was not
accepted in the poll. No connection is read twice, and no other read has any influence. If what the
wait reports ready is ready, no read blocks; and a connection is taken for ended only if its client
has closed it and everything that was sent has been read. -/
theorem reads_guarded (events : List Event) (k : Chance) (wait : Except SystemError Readiness) :
    let x := run events
    let answers := k.answersTo x.network x.server wait
    let notices := (x.server.poll answers).notices
    (∀ i c room, ServerNotice.reading i c room ∈ notices →
      (x.server.slot i).stream = some c ∧
        (∃ r place, wait = .ok r ∧ x.server.watched[place]? = some (.client c) ∧
          r.isReady place = true) ∧
        room = (x.server.slot i).buffer.spare.length ∧ 0 < room ∧
        ServerNotice.accepted c ∉ notices) ∧
      (ServerNotice.reads notices).Nodup ∧
      (∀ read, (∀ c ∈ ServerNotice.reads notices, read c = answers.read c) →
        x.server.poll { answers with read := read } = x.server.poll answers) ∧
      (x.Honest wait → ∀ i c room, ServerNotice.reading i c room ∈ notices →
        ¬(x.network.flow c).Blocks) ∧
      ∀ i c, ServerNotice.disconnected i c ∈ notices →
        (x.network.flow c).unread = [] ∧ (x.network.flow c).ending = .closed := by
  intro x answers notices
  have h : x.Sound := sound_run events
  refine ⟨fun i c room hreading => ?_, LineServer.nodup_reads_poll h.distinct answers,
    fun read => LineServer.poll_congr x.server answers, fun hhonest i c room hreading => ?_,
    fun i c hended => ?_⟩
  · obtain ⟨r, hwait, hready, hroom, rfl⟩ := LineServer.reading_poll hreading
    have hheld := LineServer.mem_clients_of_ready hready
    obtain ⟨place, hwatched, hreported⟩ := LineServer.place_of_ready hready
    obtain ⟨hcells, hpos⟩ := room_of_held h hheld hroom
    refine ⟨hheld, ⟨r, place, hwait, hwatched, hreported⟩, hcells, hpos, fun haccepted => ?_⟩
    -- a connection that is accepted waited before, so it had no slot
    obtain ⟨peer, haccept⟩ := LineServer.accepted_poll haccepted
    obtain ⟨rest, hrest⟩ := waiting_of_accept haccept
    exact (h.outside c (outside_of_waiting hrest)).2 i hheld
  · obtain ⟨r, hwait, hready, _, _⟩ := LineServer.reading_poll hreading
    obtain ⟨place, hwatched, hreported⟩ := LineServer.place_of_ready hready
    exact Inflow.not_blocks_of_ready (hhonest r hwait place (.client c) hwatched hreported)
  · obtain ⟨r, _, hready, hroom, hnothing⟩ := LineServer.disconnected_poll hended
    have hheld := LineServer.mem_clients_of_ready hready
    obtain ⟨hunread, hclosed, _⟩ := Chance.reading_end (room_for_pos h hheld hroom) hnothing
    exact ⟨hunread, hclosed⟩

end Session

end EngineLink
