import EngineLink.Proofs.LineServer.Session

/-!
# Every connection delivers its own messages

In every session the messages that a connection contributes to the queue are those in its own
readings, whatever slot it had and whoever had the slot before. Read `Session.Sound` first: the
invariant that ties the buffer of every slot to the readings of the connection in it.
`Session.run_delivers` is the result.
-/

namespace EngineLink

namespace LineServer

/-! ## Slots of different clients -/

/-- No connection has two slots. -/
def Distinct (s : LineServer) : Prop :=
  ∀ (i j : Fin maxClients) (c : Connection),
    (s.slot i).stream = some c → (s.slot j).stream = some c → i = j

/-- A client is read into the room of its own slot. -/
theorem room_for_eq {s : LineServer} (h : s.Distinct) {i : Fin maxClients} {c : Connection}
    (hc : (s.slot i).stream = some c) : s.roomFor c = (s.slot i).buffer.remaining := by
  obtain ⟨⟨j, d⟩, hfind⟩ : ∃ entry, s.clients.find? (fun entry => entry.2 = c) = some entry := by
    rw [← Option.isSome_iff_exists, List.find?_isSome]
    exact ⟨(i, c), mem_clients.2 hc, by simp⟩
  obtain rfl : d = c := by simpa using List.find?_some hfind
  obtain rfl : j = i := h j i d (mem_clients.1 (List.mem_of_find?_eq_some hfind)) hc
  simp only [roomFor, hfind, Option.map_some, Option.getD_some]

end LineServer

/-- A read takes bytes from the front, and at most as many as there is room for. -/
theorem Inflow.read_bytes (f : Inflow) (room : Nat) :
    Reading.bytes (f.read room).1 ++ (f.read room).2.unread = f.unread ∧
      (Reading.bytes (f.read room).1).length ≤ room := by
  unfold read
  split
  · simp [Reading.bytes]
  · next h =>
      have hempty : f.unread = [] := by simpa using h
      split <;> simp [Reading.bytes, hempty]

namespace Chance

variable (k : Chance) (w : Loopback) (s : LineServer) (c : Connection)

/-- A reading takes bytes from the front of what was sent, and no more than there is room for. -/
theorem reading_bytes :
    (k.reading w s c).1.bytes ++ (k.reading w s c).2.unread = (w.flow c).unread ∧
      (k.reading w s c).1.bytes.length ≤ s.roomFor c := by
  unfold reading
  split
  · simp [Reading.bytes]
  · obtain ⟨hbytes, hlength⟩ := (w.flow c).read_bytes (min (_ + 1) (s.roomFor c))
    exact ⟨hbytes, hlength.trans (Nat.min_le_right _ _)⟩

end Chance

namespace Session

/-- The messages that a connection contributed to the queue, in order. -/
def contributed (x : Session) (c : Connection) : List String :=
  (x.enqueued.filter fun entry => entry.1 = c).map Prod.snd

/-- A connection that has not been accepted, or was accepted and rejected. -/
def Outside (x : Session) (c : Connection) : Prop :=
  c ∈ x.rejected ++ x.network.waiting ∨ x.network.flows.length ≤ c

/-- What holds of a server and its history in every session. -/
structure Sound (x : Session) : Prop where
  distinct : x.server.Distinct
  /-- The buffer of a slot is the one after the readings of the connection in it. -/
  buffered : ∀ (i : Fin maxClients) (c : Connection), (x.server.slot i).stream = some c →
    Buffered (x.server.slot i).buffer (takeReadings [] (x.reads c)).1
  contributed : ∀ c, x.contributed c = (takeReadings [] (x.reads c)).2
  sent : ∀ c, bytesRead (x.reads c) ++ (x.network.flow c).unread = x.sent c
  /-- A connection outside has no slot and was never read. -/
  outside : ∀ c, x.Outside c →
    x.reads c = [] ∧ ∀ i : Fin maxClients, (x.server.slot i).stream ≠ some c
  /-- A connection is rejected at most once, and then waits no more. -/
  once : (x.rejected ++ x.network.waiting).Nodup
  made : ∀ c ∈ x.rejected ++ x.network.waiting, c < x.network.flows.length
  queue : x.taken ++ x.server.queue = x.enqueued.map Prod.snd

variable {x : Session} {k : Chance}

/-- A connection in a slot was made. -/
theorem Sound.made_of_held (h : x.Sound) {i : Fin maxClients} {c : Connection}
    (hheld : (x.server.slot i).stream = some c) : c < x.network.flows.length := by
  refine Nat.lt_of_not_le fun hle => ?_
  exact (h.outside c (.inr hle)).2 i hheld

/-! ## A poll as one connection sees it -/

/-- The slot of a connection occurs among those that a poll serves at most once. -/
theorem filter_ready (hdistinct : x.server.Distinct) {i : Fin maxClients} {c : Connection}
    (hready : (i, c) ∈ x.ready k) :
    (x.ready k).filter (fun entry => entry.2 = c) = [(i, c)] := by
  have hnodup : (x.ready k).Nodup := List.Nodup.of_map _ (x.server.nodup_ready_clients _)
  have hsame : (x.ready k).filter (fun entry => entry.2 = c) =
      (x.ready k).filter (fun entry => entry = (i, c)) := by
    refine List.filter_congr fun entry hentry => ?_
    rw [decide_eq_decide]
    refine ⟨fun hc => ?_, fun h => by rw [h]⟩
    obtain ⟨j, d⟩ := entry
    obtain rfl : d = c := hc
    rw [hdistinct j i d (LineServer.mem_clients_of_ready hentry)
      (LineServer.mem_clients_of_ready hready)]
  rw [hsame, List.filter_eq, List.count_eq_one_of_mem hnodup hready]
  rfl

/-- Messages that are tagged with connections, and those of one connection among them. -/
theorem filter_tagged (entries : List (Fin maxClients × Connection))
    (told : Fin maxClients × Connection → List String) (c : Connection) :
    ((entries.flatMap fun entry => (told entry).map (entry.2, ·)).filter
        fun tagged => tagged.1 = c).map Prod.snd =
      (entries.filter fun entry => entry.2 = c).flatMap told := by
  induction entries with
  | nil => rfl
  | cons entry rest ih =>
      rw [List.flatMap_cons, List.filter_append, List.map_append, ih, List.filter_cons]
      by_cases hc : entry.2 = c
      · simp [hc, List.filter_map, Function.comp_def]
      · simp [hc, List.filter_map, Function.comp_def]

/-- A connection contributes the messages that are told of its slot. -/
theorem contributed_poll (h : k.wait = none) (c : Connection) :
    (x.poll k).contributed c = x.contributed c ++
      ((x.ready k).filter fun entry => entry.2 = c).flatMap fun entry =>
        ServerNotice.messages (x.serving k entry).2 := by
  rw [contributed, enqueued_poll h, List.filter_append, List.map_append, filter_tagged]
  rfl

/-- A poll reads a connection if it serves its slot, unless the buffer is full. -/
theorem readings_of_eq (c : Connection) :
    x.readingsOf k c = ((x.ready k).filter fun entry => entry.2 = c).flatMap fun entry =>
      (x.server.slot entry.1).readingsOf (k.reading x.network x.server entry.2).1 := by
  unfold readingsOf readers
  induction x.ready k with
  | nil => rfl
  | cons entry rest ih =>
      cases hfull : (x.server.slot entry.1).buffer.isFull <;> by_cases hc : entry.2 = c <;>
        simp_all [Slot.readingsOf]

/-- A poll reads the ready clients whose buffer is not full. -/
theorem mem_readers {c : Connection} :
    c ∈ x.readers k ↔ ∃ i, (i, c) ∈ x.ready k ∧ (x.server.slot i).buffer.isFull = false := by
  simp [readers]

/-- What a poll does to a connection that it serves. -/
theorem poll_of_ready (hsound : x.Sound) (h : k.wait = none) {i : Fin maxClients}
    {c : Connection} (hready : (i, c) ∈ x.ready k) :
    (x.server.slot i).stream = some c ∧
      (x.poll k).reads c = x.reads c ++
        (x.server.slot i).readingsOf (k.reading x.network x.server c).1 ∧
      (x.poll k).contributed c =
        x.contributed c ++ ServerNotice.messages (x.serving k (i, c)).2 := by
  refine ⟨LineServer.mem_clients_of_ready hready, ?_, ?_⟩
  · rw [reads_after_poll h, readings_of_eq, filter_ready hsound.distinct hready]
    simp only [List.flatMap_cons, List.flatMap_nil, List.append_nil]
  · rw [contributed_poll h, filter_ready hsound.distinct hready]
    simp only [List.flatMap_cons, List.flatMap_nil, List.append_nil]

/-- A poll does nothing to the history of a connection that it does not serve. -/
theorem poll_of_not_ready (h : k.wait = none) {c : Connection}
    (hready : ∀ i, (i, c) ∉ x.ready k) :
    (x.poll k).reads c = x.reads c ∧ (x.poll k).contributed c = x.contributed c := by
  have hnone : (x.ready k).filter (fun entry => entry.2 = c) = [] := by
    refine List.filter_eq_nil_iff.2 fun entry hentry hc => ?_
    obtain ⟨j, d⟩ := entry
    obtain rfl : d = c := by simpa using hc
    exact hready j hentry
  rw [reads_after_poll h, readings_of_eq, contributed_poll h, hnone]
  simp only [List.flatMap_nil, List.append_nil, and_self]

/-- The connection that an accept gives is the oldest that waits. -/
theorem waiting_of_accept {c : Connection} {peer : Address}
    (h : (k.answers x.network x.server).accept = .ok (c, peer)) :
    ∃ rest, x.network.waiting = c :: rest := by
  simp only [Chance.answers, Loopback.accept] at h
  split at h
  · cases h
  · split at h
    · cases h
    · cases h
    · next heq => exact ⟨_, by cases h; assumption⟩

/-- The accept of a poll takes nothing, or gives the oldest connection that waits the lowest free
slot, or rejects it. -/
theorem admission_cases (x : Session) (k : Chance) :
    let accepted := (x.admission k).2.filterMap ServerNotice.accepted?
    let rejected := (x.admission k).2.filterMap ServerNotice.rejected?
    ((x.admission k).1 = x.server ∧ accepted = [] ∧ rejected = []) ∨
      (∃ c peer i rest, x.network.waiting = c :: rest ∧ x.server.firstFree? = some i ∧
        (x.admission k).1 = x.server.setSlot i (.occupied c peer) ∧
          accepted = [c] ∧ rejected = []) ∨
      ∃ c rest, x.network.waiting = c :: rest ∧
        (x.admission k).1 = x.server ∧ accepted = [c] ∧ rejected = [c] := by
  intro accepted rejected
  simp only [accepted, rejected, admission]
  rcases LineServer.admitted_cases x.server (x.reported k) (k.answers x.network x.server).accept
    with ⟨hserver, hnotices | ⟨e, hnotices⟩⟩ | ⟨c, peer, i, haccept, hfree, h⟩ |
      ⟨c, peer, haccept, hfree, h⟩
  · rw [hserver, hnotices]
    exact .inl ⟨rfl, rfl, rfl⟩
  · rw [hserver, hnotices]
    exact .inl ⟨rfl, rfl, rfl⟩
  · obtain ⟨rest, hrest⟩ := waiting_of_accept haccept
    rw [h]
    exact .inr (.inl ⟨c, peer, i, rest, hrest, hfree, rfl, rfl, rfl⟩)
  · obtain ⟨rest, hrest⟩ := waiting_of_accept haccept
    rw [h]
    exact .inr (.inr ⟨c, rest, hrest, rfl, rfl, rfl⟩)

/-! ## The slots after a poll -/

/-- A slot that a poll serves is freed, or keeps its connection with the buffer after its
readings. -/
theorem slot_poll_of_ready (hsound : x.Sound) (h : k.wait = none) {i : Fin maxClients}
    {c : Connection} (hready : (i, c) ∈ x.ready k) :
    ((x.poll k).server.slot i = .free ∨ ((x.poll k).server.slot i).stream = some c ∧
        Buffered ((x.poll k).server.slot i).buffer (takeReadings [] ((x.poll k).reads c)).1) ∧
      (x.poll k).contributed c = (takeReadings [] ((x.poll k).reads c)).2 := by
  obtain ⟨hheld, hreads, hcontributed⟩ := poll_of_ready hsound h hready
  obtain ⟨_, hlength⟩ := k.reading_bytes x.network x.server c
  rw [LineServer.room_for_eq hsound.distinct hheld] at hlength
  obtain ⟨hslot, hmessages⟩ := buffered_served (hsound.buffered i c hheld) i c
    (k.reading x.network x.server c).1 hlength
  rw [hheld] at hslot
  rw [slot_poll_serving h hready, hreads, hcontributed, take_readings_append,
    hsound.contributed c]
  exact ⟨hslot, congrArg _ hmessages⟩

/-- A slot that a poll does not serve stays as it was, or it is the lowest free slot and the
oldest connection that waits gets it. -/
theorem slot_poll_of_not_ready (h : k.wait = none) {i : Fin maxClients}
    (hready : ∀ c, (i, c) ∉ x.ready k) :
    (x.poll k).server.slot i = x.server.slot i ∨
      ∃ c peer rest, x.network.waiting = c :: rest ∧ x.server.firstFree? = some i ∧
        (x.poll k).server.slot i = .occupied c peer ∧
          (x.poll k).network.waiting = rest ∧ (x.poll k).rejected = x.rejected := by
  obtain ⟨_, hwaiting, _⟩ := network_poll (x := x) h
  have hrejected : (x.poll k).rejected = x.rejected ++ _ := congrArg _ (admitted_poll h).2
  rw [slot_poll_admission h hready, hwaiting, hrejected]
  rcases x.admission_cases k with ⟨hserver, _, _⟩ |
    ⟨c, peer, j, rest, hwaits, hfree, hserver, haccepted, hnone⟩ | ⟨c, rest, _, hserver, _, _⟩
  · rw [hserver]
    exact .inl rfl
  · rw [hserver, haccepted, hnone, hwaits]
    by_cases hj : j = i
    · subst hj
      rw [LineServer.slot_set_slot_same]
      exact .inr ⟨c, peer, rest, rfl, hfree, rfl, rfl, List.append_nil _⟩
    · rw [LineServer.slot_set_slot_other _ _ hj]
      exact .inl rfl
  · rw [hserver]
    exact .inl rfl

/-- A connection in a slot after a poll was there before, or it is the oldest that waited and got
the lowest free slot. -/
theorem stream_poll (hsound : x.Sound) (h : k.wait = none) {i : Fin maxClients} {c : Connection}
    (hc : ((x.poll k).server.slot i).stream = some c) :
    (x.server.slot i).stream = some c ∨
      ∃ rest, x.network.waiting = c :: rest ∧ x.server.firstFree? = some i ∧
        (x.poll k).network.waiting = rest ∧ (x.poll k).rejected = x.rejected := by
  by_cases hready : ∃ d, (i, d) ∈ x.ready k
  · obtain ⟨d, hready⟩ := hready
    obtain ⟨hheld, _⟩ := poll_of_ready hsound h hready
    rcases (slot_poll_of_ready hsound h hready).1 with hslot | ⟨hslot, _⟩
    · rw [hslot] at hc
      cases hc
    · rw [hslot] at hc
      exact .inl (hheld.trans hc)
  · rw [not_exists] at hready
    rcases slot_poll_of_not_ready h hready with hslot |
      ⟨d, peer, rest, hwaits, hfree, hslot, hrest, hrejected⟩
    · rw [hslot] at hc
      exact .inl hc
    · rw [hslot] at hc
      obtain rfl : d = c := Option.some.inj hc
      exact .inr ⟨rest, hwaits, hfree, hrest, hrejected⟩

/-- A connection that leaves the queue of the port in a poll was the oldest in it, and one that is
rejected left it. -/
theorem outside_poll (h : k.wait = none) :
    ((x.poll k).rejected ++ (x.poll k).network.waiting).Sublist
      (x.rejected ++ x.network.waiting) := by
  obtain ⟨_, hwaiting, _⟩ := network_poll (x := x) h
  have hrejected : (x.poll k).rejected = x.rejected ++ _ := congrArg _ (admitted_poll h).2
  rw [hwaiting, hrejected]
  rcases x.admission_cases k with ⟨_, haccepted, hnone⟩ |
    ⟨c, peer, i, rest, hwaits, _, _, haccepted, hnone⟩ | ⟨c, rest, hwaits, _, haccepted, hone⟩
  · rw [haccepted, hnone, List.append_nil]
    exact List.Sublist.refl _
  · rw [haccepted, hnone, hwaits, List.append_nil]
    exact (List.Sublist.refl _).append (List.sublist_cons_self _ _)
  · rw [haccepted, hone, hwaits, List.append_assoc]
    exact List.Sublist.refl _

/-! ## Every event keeps the invariant -/

/-- No slot holds a client in the beginning. -/
theorem stream_start (i : Fin maxClients) : (start.server.slot i).stream = none := by
  show (LineServer.empty.slot i).stream = none
  rw [LineServer.slot_empty]
  rfl

/-- A server that has just started is sound. -/
theorem sound_start : start.Sound where
  distinct := by
    intro i j c hi
    rw [stream_start] at hi
    cases hi
  buffered := by
    intro i c hi
    rw [stream_start] at hi
    cases hi
  contributed _ := rfl
  sent _ := rfl
  outside := by
    intro c _
    refine ⟨rfl, fun i hi => ?_⟩
    rw [stream_start] at hi
    cases hi
  once := List.nodup_nil
  made := by simp [start, Loopback.empty]
  queue := rfl

/-- A connection that is made waits, and was outside before. -/
theorem sound_connect (h : x.Sound) : x.connect.Sound := by
  have hcases : x.connect.network.flows.length = x.network.flows.length ∧
        x.connect.network.waiting = x.network.waiting ∨
      x.connect.network.flows.length = x.network.flows.length + 1 ∧
        x.connect.network.waiting = x.network.waiting ++ [x.network.flows.length] :=
    x.network.connect_cases
  refine { h with sent := fun c => ?_, outside := fun c hc => ?_, once := ?_, made := ?_ }
  · show bytesRead (x.reads c) ++ (x.connect.network.flow c).unread = x.sent c
    rw [← h.sent c]
    simp only [connect, Loopback.flow_connect]
  · refine h.outside c ?_
    unfold Outside at hc ⊢
    rcases hcases with ⟨hlength, hwaiting⟩ | ⟨hlength, hwaiting⟩
    · rwa [hlength, hwaiting] at hc
    · rw [hlength, hwaiting, ← List.append_assoc, List.mem_append, List.mem_singleton] at hc
      rcases hc with (hc | hc) | hc
      · exact .inl hc
      · exact .inr hc.ge
      · exact .inr (Nat.le_of_succ_le hc)
  · show (x.rejected ++ x.connect.network.waiting).Nodup
    rcases hcases with ⟨_, hwaiting⟩ | ⟨_, hwaiting⟩
    · rw [hwaiting]
      exact h.once
    · rw [hwaiting, ← List.append_assoc]
      refine h.once.append (List.nodup_singleton _) fun c hc hnew => ?_
      exact Nat.ne_of_lt (h.made c hc) (List.mem_singleton.1 hnew)
  · show ∀ c ∈ x.rejected ++ x.connect.network.waiting, c < x.connect.network.flows.length
    intro c hc
    rcases hcases with ⟨hlength, hwaiting⟩ | ⟨hlength, hwaiting⟩
    · rw [hwaiting] at hc
      rw [hlength]
      exact h.made c hc
    · rw [hwaiting, ← List.append_assoc, List.mem_append, List.mem_singleton] at hc
      rw [hlength]
      rcases hc with hc | rfl
      · exact Nat.lt_succ_of_lt (h.made c hc)
      · exact Nat.lt_succ_self _

/-- What a client sends stands behind what can be read already. -/
theorem sound_send (h : x.Sound) (c : Connection) (bytes : List UInt8) :
    (x.send c bytes).Sound := by
  refine { h with sent := fun d => ?_, outside := ?_, made := ?_ }
  · have hd := h.sent d
    simp only [send, Loopback.flow_modify]
    by_cases hopen : d = c ∧ x.isOpen c
    · obtain ⟨rfl, hmade, hunended⟩ := hopen
      rw [if_pos ⟨rfl, hmade⟩, if_pos ⟨rfl, hmade, hunended⟩, Inflow.send, if_pos hunended, ← hd]
      simp only [List.append_assoc]
    · rw [if_neg hopen, ← hd]
      split
      · next hmade =>
          obtain ⟨rfl, hmade⟩ := hmade
          rw [Inflow.send, if_neg fun hunended => hopen ⟨rfl, hmade, hunended⟩]
      · rfl
  · simpa [Outside, send] using h.outside
  · simpa [send] using h.made

/-- The end of a connection leaves what can still be read. -/
theorem sound_finish (h : x.Sound) (c : Connection) (ending : Ending) :
    (x.finish c ending).Sound := by
  refine { h with sent := fun d => ?_, outside := ?_, made := ?_ }
  · have hunread : ((x.finish c ending).network.flow d).unread = (x.network.flow d).unread := by
      simp only [finish, Loopback.flow_modify, Inflow.finish]
      split
      · next heq =>
          rw [heq.1]
          split <;> rfl
      · rfl
    rw [hunread]
    exact h.sent d
  · simpa [Outside, finish] using h.outside
  · simpa [finish] using h.made

/-- The message that is taken is the oldest in the queue. -/
theorem sound_next (h : x.Sound) : x.next.Sound := by
  refine { h with queue := ?_ }
  show (x.taken ++ x.server.queue.head?.toList) ++ x.server.queue.tail = x.enqueued.map Prod.snd
  rw [← h.queue, List.append_assoc]
  cases x.server.queue <;> rfl

/-! ## A poll keeps each part of the invariant -/

/-- A connection that is outside behind a poll was outside before it. -/
theorem outside_of_poll (h : k.wait = none) {c : Connection} (hc : (x.poll k).Outside c) :
    x.Outside c := by
  rcases hc with hc | hc
  · exact .inl ((outside_poll h).subset hc)
  · rw [(network_poll h).1] at hc
    exact .inr hc

/-- A connection that waits is outside. -/
theorem outside_of_waiting {c : Connection} {rest : List Connection}
    (h : x.network.waiting = c :: rest) : x.Outside c := by
  refine .inl (List.mem_append_right _ ?_)
  rw [h]
  exact List.mem_cons_self

/-- A connection that is outside is in no slot that a poll serves. -/
theorem not_ready_of_outside (h : x.Sound) {c : Connection} (hc : x.Outside c)
    (i : Fin maxClients) : (i, c) ∉ x.ready k :=
  fun hready => (h.outside c hc).2 i (LineServer.mem_clients_of_ready hready)

/-- Behind a poll no connection has two slots. -/
theorem distinct_after_poll (h : x.Sound) (hwait : k.wait = none) : (x.poll k).server.Distinct := by
  intro i j c hi hj
  -- a connection that is new in one slot was outside, so it is in no other
  rcases stream_poll h hwait hi with hi | ⟨_, hrest, hifree, _, _⟩
  · rcases stream_poll h hwait hj with hj | ⟨_, hrest, _, _, _⟩
    · exact h.distinct i j c hi hj
    · exact absurd hi ((h.outside c (outside_of_waiting hrest)).2 i)
  · rcases stream_poll h hwait hj with hj | ⟨_, _, hjfree, _, _⟩
    · exact absurd hj ((h.outside c (outside_of_waiting hrest)).2 j)
    · rw [hifree] at hjfree
      exact Option.some.inj hjfree

/-- Behind a poll the buffer of a slot is the one after the readings of its connection. -/
theorem buffered_after_poll (h : x.Sound) (hwait : k.wait = none) (i : Fin maxClients)
    (c : Connection) (hc : ((x.poll k).server.slot i).stream = some c) :
    Buffered ((x.poll k).server.slot i).buffer (takeReadings [] ((x.poll k).reads c)).1 := by
  by_cases hready : ∃ d, (i, d) ∈ x.ready k
  · obtain ⟨d, hready⟩ := hready
    rcases (slot_poll_of_ready h hwait hready).1 with hslot | ⟨hslot, hbuffered⟩
    · rw [hslot] at hc
      cases hc
    · rw [hslot] at hc
      obtain rfl : d = c := Option.some.inj hc
      exact hbuffered
  · rw [not_exists] at hready
    rcases slot_poll_of_not_ready hwait hready with hslot |
      ⟨d, peer, rest, hrest, _, hslot, _, _⟩
    · rw [hslot] at hc ⊢
      have hunserved : ∀ j, (j, c) ∉ x.ready k := by
        intro j hentry
        rw [h.distinct i j c hc (LineServer.mem_clients_of_ready hentry)] at hready
        exact hready c hentry
      rw [(poll_of_not_ready hwait hunserved).1]
      exact h.buffered i c hc
    · rw [hslot] at hc ⊢
      obtain rfl : d = c := Option.some.inj hc
      -- the slot is new to the connection, which was never read
      have hout := outside_of_waiting hrest
      rw [(poll_of_not_ready hwait (not_ready_of_outside h hout)).1, (h.outside d hout).1]
      exact buffered_empty

/-- Behind a poll a connection has contributed the messages of its readings. -/
theorem contributed_after_poll (h : x.Sound) (hwait : k.wait = none) (c : Connection) :
    (x.poll k).contributed c = (takeReadings [] ((x.poll k).reads c)).2 := by
  by_cases hready : ∃ i, (i, c) ∈ x.ready k
  · obtain ⟨i, hready⟩ := hready
    exact (slot_poll_of_ready h hwait hready).2
  · rw [not_exists] at hready
    obtain ⟨hreads, hcontributed⟩ := poll_of_not_ready hwait hready
    rw [hreads, hcontributed]
    exact h.contributed c

/-- From a connection that a poll does not serve, the same can be read afterwards. -/
theorem flow_poll_of_not_ready (hwait : k.wait = none) {c : Connection}
    (hready : ∀ i, (i, c) ∉ x.ready k) :
    ((x.poll k).network.flow c).unread = (x.network.flow c).unread ∧
      ((x.poll k).network.flow c).ending = (x.network.flow c).ending := by
  obtain ⟨f, hunread, hending, hf⟩ := (network_poll hwait).2.2 c
  have hnot : ¬(c ∈ x.readers k ∧ c < x.network.flows.length) := by
    rintro ⟨hreader, _⟩
    obtain ⟨i, hentry, _⟩ := mem_readers.1 hreader
    exact hready i hentry
  rw [if_neg hnot] at hf
  rw [hunread, hending, hf]
  exact ⟨rfl, rfl⟩

/-- From a connection that a poll serves, its reading leaves what can be read afterwards, unless the
buffer is full. -/
theorem flow_poll_of_ready (h : x.Sound) (hwait : k.wait = none) {i : Fin maxClients}
    {c : Connection} (hready : (i, c) ∈ x.ready k) :
    let f := if (x.server.slot i).buffer.isFull then x.network.flow c
      else (k.reading x.network x.server c).2
    ((x.poll k).network.flow c).unread = f.unread ∧
      ((x.poll k).network.flow c).ending = f.ending := by
  obtain ⟨f, hunread, hending, hf⟩ := (network_poll hwait).2.2 c
  have hheld := LineServer.mem_clients_of_ready hready
  cases hfull : (x.server.slot i).buffer.isFull with
  | true =>
      -- the buffer is discarded and nothing is read, since no other slot has the connection
      have hnot : ¬(c ∈ x.readers k ∧ c < x.network.flows.length) := by
        rintro ⟨hreader, _⟩
        obtain ⟨j, hentry, hroom⟩ := mem_readers.1 hreader
        rw [h.distinct j i c (LineServer.mem_clients_of_ready hentry) hheld, hfull] at hroom
        cases hroom
      rw [if_neg hnot] at hf
      rw [hunread, hending, hf]
      exact ⟨rfl, rfl⟩
  | false =>
      rw [if_pos ⟨mem_readers.2 ⟨i, hready, hfull⟩, h.made_of_held hheld⟩] at hf
      rw [hunread, hending, hf]
      exact ⟨rfl, rfl⟩

/-- A poll reads a connection once, or leaves it alone. -/
theorem read_poll (h : x.Sound) (hwait : k.wait = none) (c : Connection) :
    ((x.poll k).reads c = x.reads c ∧
        ((x.poll k).network.flow c).unread = (x.network.flow c).unread ∧
        ((x.poll k).network.flow c).ending = (x.network.flow c).ending) ∨
      (∃ i, (i, c) ∈ x.ready k) ∧
        (x.poll k).reads c = x.reads c ++ [(k.reading x.network x.server c).1] ∧
        ((x.poll k).network.flow c).unread = (k.reading x.network x.server c).2.unread ∧
        ((x.poll k).network.flow c).ending = (k.reading x.network x.server c).2.ending := by
  by_cases hready : ∃ i, (i, c) ∈ x.ready k
  · obtain ⟨i, hready⟩ := hready
    obtain ⟨_, hreads, _⟩ := poll_of_ready h hwait hready
    have hflow := flow_poll_of_ready h hwait hready
    rw [hreads]
    cases hfull : (x.server.slot i).buffer.isFull with
    | true =>
        rw [hfull] at hflow
        rw [Slot.readingsOf, if_pos hfull, List.append_nil]
        exact .inl ⟨rfl, hflow⟩
    | false =>
        rw [hfull] at hflow
        rw [Slot.readingsOf, hfull]
        exact .inr ⟨⟨i, hready⟩, rfl, hflow⟩
  · rw [not_exists] at hready
    rw [(poll_of_not_ready hwait hready).1]
    exact .inl ⟨rfl, flow_poll_of_not_ready hwait hready⟩

/-- Behind a poll the bytes that were read of a connection and those unread are what was sent on it.
-/
theorem sent_after_poll (h : x.Sound) (hwait : k.wait = none) (c : Connection) :
    bytesRead ((x.poll k).reads c) ++ ((x.poll k).network.flow c).unread = x.sent c := by
  rw [← h.sent c]
  rcases read_poll h hwait c with ⟨hreads, hunread, _⟩ | ⟨_, hreads, hunread, _⟩
  · rw [hreads, hunread]
  · rw [hreads, hunread, bytes_read_append, List.append_assoc,
      ← (k.reading_bytes x.network x.server c).1]
    simp [bytesRead]

/-- A connection that is outside behind a poll has not been read and has no slot. -/
theorem outside_after_poll (h : x.Sound) (hwait : k.wait = none) (c : Connection)
    (hc : (x.poll k).Outside c) :
    (x.poll k).reads c = [] ∧
      ∀ i : Fin maxClients, ((x.poll k).server.slot i).stream ≠ some c := by
  have hout := outside_of_poll hwait hc
  obtain ⟨hreads, hslots⟩ := h.outside c hout
  refine ⟨by rw [(poll_of_not_ready hwait (not_ready_of_outside h hout)).1, hreads], ?_⟩
  intro i hi
  rcases stream_poll h hwait hi with hi | ⟨rest, hrest, _, hwaiting, hrejected⟩
  · exact hslots i hi
  · -- it left the queue of the port, where it stood once, and was not rejected
    have honce := h.once
    have hmade := h.made c
    rw [hrest] at honce hmade
    rcases hc with hc | hc
    · rw [hwaiting, hrejected] at hc
      exact (List.nodup_middle.1 honce).notMem hc
    · rw [(network_poll hwait).1] at hc
      exact Nat.not_lt_of_le hc (hmade (by simp))

/-- Behind a poll the messages taken and those queued are the ones that were enqueued, in order. -/
theorem queue_after_poll (h : x.Sound) (hwait : k.wait = none) :
    x.taken ++ (x.poll k).server.queue = (x.poll k).enqueued.map Prod.snd := by
  rw [queue_poll hwait, enqueued_poll hwait, ← List.append_assoc, h.queue, List.map_append,
    List.map_flatMap]
  simp

/-- A poll keeps the invariant. -/
theorem sound_poll (h : x.Sound) (k : Chance) : (x.poll k).Sound := by
  cases hwait : k.wait with
  | some e =>
      rw [poll_of_wait_failure hwait]
      exact h
  | none =>
      exact {
        distinct := distinct_after_poll h hwait
        buffered := buffered_after_poll h hwait
        contributed := contributed_after_poll h hwait
        sent := sent_after_poll h hwait
        outside := outside_after_poll h hwait
        once := (outside_poll hwait).nodup h.once
        made := fun c hc => by
          rw [(network_poll hwait).1]
          exact h.made c ((outside_poll hwait).subset hc)
        queue := queue_after_poll h hwait }

/-- Every event keeps the invariant. -/
theorem sound_step (h : x.Sound) (event : Event) : (x.step event).Sound := by
  cases event with
  | connect => exact sound_connect h
  | send c bytes => exact sound_send h c bytes
  | finish c ending => exact sound_finish h c ending
  | poll k => exact sound_poll h k
  | next => exact sound_next h

/-- The invariant holds in every session. -/
theorem sound_run (events : List Event) : (run events).Sound :=
  run_induction sound_start (fun _ => sound_step) events

/-- In every session each connection contributes to the queue the messages that a new line buffer
finds in what was read from it, empty again behind every failed read; what was read from it is the
front of what was sent on it, and nothing if it was rejected; and the messages taken, followed by
the queue, are all that were queued. -/
theorem run_delivers (events : List Event) :
    let x := run events
    (∀ c, x.contributed c = readMessages (x.reads c) ∧
      bytesRead (x.reads c) ++ (x.network.flow c).unread = x.sent c) ∧
    (∀ c ∈ x.rejected, x.reads c = [] ∧ x.contributed c = []) ∧
    x.taken ++ x.server.queue = x.enqueued.map Prod.snd := by
  intro x
  have h : x.Sound := sound_run events
  have hcontributed (c : Connection) : x.contributed c = readMessages (x.reads c) := by
    rw [h.contributed c, take_readings_eq_read_messages]
  refine ⟨fun c => ⟨hcontributed c, h.sent c⟩, fun c hc => ?_, h.queue⟩
  have hreads := (h.outside c (.inl (List.mem_append_left _ hc))).1
  refine ⟨hreads, ?_⟩
  rw [h.contributed c, hreads]
  rfl

end Session

end EngineLink
