import EngineLink.Proofs.LineServer.Serving

/-!
# Failures stay where they arise

A poll compared with the same poll in which one descriptor is not ready. If the accept fails, or the
read of a client, then nothing else of the poll is changed by it. Read `PollAnswers.without` first:
the poll to compare with. `LineServer.poll_isolates_failures` is the result, for every server and
everything that the system may answer.
-/

namespace EngineLink

/-- The descriptor at a place is not ready, all others are as they were. -/
def Readiness.without (r : Readiness) (place : Nat) : Readiness :=
  ⟨r.ready.set place false⟩

/-- Without the descriptor at a place that one is not ready, and the others are as they were. -/
theorem Readiness.is_ready_without (r : Readiness) (place other : Nat) :
    (r.without place).isReady other = if other = place then false else r.isReady other := by
  simp only [isReady, without, List.getElem?_set]
  split
  · next h => simp [h]; split <;> rfl
  · next h => simp [Ne.symm h]

/-- The answers to a poll but for the descriptor at a place, which is not ready. -/
def PollAnswers.without (a : PollAnswers) (place : Nat) : PollAnswers :=
  { a with wait := a.wait.map fun r => r.without place }

/-- A wait that succeeds does so without one of its descriptors. -/
theorem PollAnswers.wait_without {a : PollAnswers} {r : Readiness} (h : a.wait = .ok r)
    (place : Nat) : (a.without place).wait = .ok (r.without place) := by
  simp [without, h, Except.map]

/-- A wait that fails does so without one of its descriptors. -/
theorem PollAnswers.wait_without_of_error {a : PollAnswers} {e : SystemError}
    (h : a.wait = .error e) (place : Nat) : (a.without place).wait = .error e := by
  simp [without, h, Except.map]

/-- A message is told of exactly by a notice of it. -/
theorem ServerNotice.mem_messages {notices : List ServerNotice} {text : String} :
    text ∈ messages notices ↔ line (.message text) ∈ notices := by
  simp only [messages, LineNotice.messages, List.mem_filterMap]
  constructor
  · rintro ⟨told, ⟨notice, hnotice, hline⟩, hmessage⟩
    cases notice <;> cases hline
    cases told <;> cases hmessage
    exact hnotice
  · exact fun h => ⟨.message text, ⟨_, h, rfl⟩, rfl⟩

/-- A read that fails brings no message. It clears the buffer, unless a signal made it fail. -/
theorem Slot.served_of_error {slot : Slot} (i : Fin maxClients) (c : Connection)
    (hroom : slot.buffer.isFull = false) (e : SystemError) :
    (slot.served i c (.error e)).1 = (if e.isInterrupted then slot else slot.clear) ∧
      ServerNotice.messages (slot.served i c (.error e)).2 = [] := by
  cases hsignal : e.isInterrupted with
  | true =>
      rw [served_of_signal i c hroom hsignal]
      exact ⟨rfl, rfl⟩
  | false =>
      rw [served_of_failure i c hroom hsignal]
      exact ⟨rfl, rfl⟩

namespace LineServer

variable {s : LineServer} {a : PollAnswers} {r : Readiness}

/-- A server is its slots and its queue. -/
theorem eq_of_slots {t : LineServer} (hslots : ∀ i, s.slot i = t.slot i)
    (hqueue : s.queue = t.queue) : s = t := by
  obtain ⟨slots, queue⟩ := s
  obtain ⟨others, _⟩ := t
  obtain rfl : slots = others := Vector.ext fun i hi => hslots ⟨i, hi⟩
  obtain rfl := hqueue
  rfl

/-- Another content of a slot leaves the queue. -/
@[simp] theorem queue_set_slot (s : LineServer) (i : Fin maxClients) (slot : Slot) :
    (s.setSlot i slot).queue = s.queue := rfl

/-! ## What is ready without a descriptor -/

/-- The clients that are ready do not hang on the port. -/
theorem ready_clients_without_port (s : LineServer) (r : Readiness) :
    s.readyClients (r.without 0) = s.readyClients r := by
  simp [readyClients, Readiness.is_ready_without]

/-- Without the descriptor of a client, it is that client alone which is not ready. -/
theorem ready_clients_without_client {n : Nat} {i : Fin maxClients} {c : Connection}
    (h : s.clients[n]? = some (i, c)) (hready : r.isReady (n + 1) = true) :
    ∃ before after, s.readyClients r = before ++ (i, c) :: after ∧
      s.readyClients (r.without (n + 1)) = before ++ after := by
  obtain ⟨front, back, hclients, hlength⟩ : ∃ front back, s.clients = front ++ (i, c) :: back ∧
      front.length = n := by
    obtain ⟨hn, hentry⟩ := List.getElem?_eq_some_iff.1 h
    refine ⟨s.clients.take n, s.clients.drop (n + 1), ?_, List.length_take_of_le hn.le⟩
    rw [← hentry, List.getElem_cons_drop, List.take_append_drop]
  have hsame {place : Nat} (hplace : place ≠ n) :
      (r.without (n + 1)).isReady (place + 1) = r.isReady (place + 1) := by
    rw [Readiness.is_ready_without, if_neg (by omega)]
  have hgone : (r.without (n + 1)).isReady (n + 1) = false := by
    rw [Readiness.is_ready_without, if_pos rfl]
  -- the clients in front of the place and behind it are as ready as they were
  have hfront : front.zipIdx.filter (fun entry => (r.without (n + 1)).isReady (entry.2 + 1)) =
      front.zipIdx.filter fun entry => r.isReady (entry.2 + 1) := by
    refine List.filter_congr fun entry hentry => hsame (Nat.ne_of_lt ?_)
    rw [← hlength]
    exact (List.mem_zipIdx' hentry).1
  have hback : (back.zipIdx (n + 1)).filter
        (fun entry => (r.without (n + 1)).isReady (entry.2 + 1)) =
      (back.zipIdx (n + 1)).filter fun entry => r.isReady (entry.2 + 1) := by
    refine List.filter_congr fun entry hentry => hsame (Nat.ne_of_gt ?_)
    exact (List.mem_zipIdx hentry).1
  have hsplit : s.clients.zipIdx = front.zipIdx ++ ((i, c), n) :: back.zipIdx (n + 1) := by
    rw [hclients, List.zipIdx_append, List.zipIdx_cons, hlength, Nat.zero_add]
  refine ⟨(front.zipIdx.filter fun entry => r.isReady (entry.2 + 1)).map Prod.fst,
    ((back.zipIdx (n + 1)).filter fun entry => r.isReady (entry.2 + 1)).map Prod.fst, ?_, ?_⟩
  · rw [readyClients, hsplit, List.filter_append, List.filter_cons, if_pos hready, List.map_append,
      List.map_cons]
  · rw [readyClients, hsplit, List.filter_append, List.filter_cons, hgone, hfront, hback,
      if_neg Bool.false_ne_true, List.map_append]

/-! ## Two polls -/

/-- A poll whose wait fails does not hang on what an accept or a read would give. -/
theorem poll_congr_of_wait_error {b : PollAnswers} {e : SystemError} (ha : a.wait = .error e)
    (hb : b.wait = .error e) : s.poll b = s.poll a := by
  simp only [poll, ha, hb]

/-- A poll whose wait succeeds tells whether the queue has grown. -/
theorem result_of_wait_ok (h : a.wait = .ok r) :
    (s.poll a).result =
      .ok (decide (s.queue.length < (s.poll a).server.queue.length)) := by
  simp only [poll, h]

/-- A poll whose wait succeeds queues the messages of the ready clients, each served as it was at
the start. -/
theorem queue_of_wait_ok (h : a.wait = .ok r) :
    (s.poll a).server.queue = s.queue ++ (s.readyClients r).flatMap fun entry =>
      ServerNotice.messages ((s.slot entry.1).served entry.1 entry.2 (a.read entry.2)).2 := by
  rw [(poll_of_wait_ok h).2.1, servedNotices, ServerNotice.messages_flat_map]

/-- A poll with the port and one without it differ by the accept alone. -/
theorem poll_without_port (h : a.wait = .ok r) :
    (s.poll a).server.queue = (s.poll (a.without 0)).server.queue ∧
      ∀ j, (s.poll a).server.slot j = (s.poll (a.without 0)).server.slot j ∨
        (∀ c, (j, c) ∉ s.readyClients r) ∧
          (s.poll a).server.slot j = (s.admitted r a.accept).1.slot j ∧
            (s.poll (a.without 0)).server.slot j = s.slot j := by
  have hwithout := PollAnswers.wait_without h 0
  have hready := s.ready_clients_without_port r
  have hnone : (s.admitted (r.without 0) (a.without 0).accept).1 = s := by
    rw [admitted, Readiness.is_ready_without, if_pos rfl, if_neg Bool.false_ne_true]
  refine ⟨?_, fun j => ?_⟩
  · rw [queue_of_wait_ok h, queue_of_wait_ok hwithout, hready]
    rfl
  · obtain ⟨_, _, hserved, hothers⟩ := poll_of_wait_ok (s := s) h
    obtain ⟨_, _, hserved', hothers'⟩ := poll_of_wait_ok (s := s) hwithout
    rw [hready, hnone] at hothers'
    rw [hready] at hserved'
    by_cases hj : j ∈ (s.readyClients r).map Prod.fst
    · obtain ⟨entry, hentry, rfl⟩ := List.mem_map.1 hj
      exact .inl ((hserved entry hentry).trans (hserved' entry hentry).symm)
    · refine .inr ⟨fun c hc => hj (List.mem_map.2 ⟨_, hc, rfl⟩), hothers j hj, hothers' j hj⟩

/-- A poll whose accept changes nothing is one without the port. -/
theorem poll_of_admitted_self (h : a.wait = .ok r) (hadmitted : (s.admitted r a.accept).1 = s) :
    (s.poll a).server = (s.poll (a.without 0)).server := by
  obtain ⟨hqueue, hslots⟩ := poll_without_port (s := s) h
  refine eq_of_slots (fun j => ?_) hqueue
  rcases hslots j with hsame | ⟨_, hslot, hkept⟩
  · exact hsame
  · rw [hslot, hkept, hadmitted]

/-- A poll whose accept fills a slot is one without the port, but for that slot. -/
theorem poll_of_admitted_slot {i : Fin maxClients} {slot : Slot} (h : a.wait = .ok r)
    (hadmitted : (s.admitted r a.accept).1 = s.setSlot i slot)
    (hfree : ∀ c, (i, c) ∉ s.readyClients r) :
    (s.poll a).server = (s.poll (a.without 0)).server.setSlot i slot := by
  obtain ⟨hqueue, hslots⟩ := poll_without_port (s := s) h
  refine eq_of_slots (fun j => ?_) hqueue
  by_cases hj : i = j
  · subst hj
    rw [slot_set_slot_same]
    have hnot : i ∉ (s.readyClients r).map Prod.fst := by
      intro hmem
      obtain ⟨⟨j, c⟩, hentry, rfl⟩ := List.mem_map.1 hmem
      exact hfree c hentry
    rw [(poll_of_wait_ok h).2.2.2 i hnot, hadmitted, slot_set_slot_same]
  · rw [slot_set_slot_other _ _ hj]
    rcases hslots j with hsame | ⟨_, hslot, hkept⟩
    · exact hsame
    · rw [hslot, hkept, hadmitted, slot_set_slot_other _ _ hj]

/-- A failed accept changes nothing. -/
theorem admitted_of_error (s : LineServer) (r : Readiness) (e : SystemError) :
    (s.admitted r (.error e)).1 = s := by
  unfold admitted
  split <;> rfl

/-- A poll in which the read of a client fails is one in which that client is not ready, but for the
buffer of its slot. -/
theorem poll_of_failed_read {n : Nat} {i : Fin maxClients} {c : Connection} {e : SystemError}
    (h : a.wait = .ok r) (hclient : s.clients[n]? = some (i, c))
    (hready : r.isReady (n + 1) = true) (hroom : (s.slot i).buffer.isFull = false)
    (hread : a.read c = .error e) :
    (s.poll a).server = (s.poll (a.without (n + 1))).server.setSlot i
      (if e.isInterrupted then s.slot i else (s.slot i).clear) := by
  have hwithout := PollAnswers.wait_without h (n + 1)
  obtain ⟨before, after, hwith, hnow⟩ := ready_clients_without_client hclient hready
  obtain ⟨hslot, hquiet⟩ := Slot.served_of_error i c hroom e
  have hadmitted : s.admitted (r.without (n + 1)) (a.without (n + 1)).accept =
      s.admitted r a.accept := by
    rw [admitted, Readiness.is_ready_without, if_neg (Nat.zero_ne_add_one n)]
    rfl
  obtain ⟨_, _, hserved, hothers⟩ := poll_of_wait_ok (s := s) h
  obtain ⟨_, _, hserved', hothers'⟩ := poll_of_wait_ok (s := s) hwithout
  rw [hadmitted] at hothers'
  refine eq_of_slots (fun j => ?_) ?_
  · by_cases hj : i = j
    · subst hj
      have hmem : (i, c) ∈ s.readyClients r := by
        rw [hwith]
        exact List.mem_append_right _ List.mem_cons_self
      rw [slot_set_slot_same, ← hslot, ← hread]
      exact hserved (i, c) hmem
    · rw [slot_set_slot_other _ _ hj]
      by_cases hmem : j ∈ (s.readyClients (r.without (n + 1))).map Prod.fst
      · obtain ⟨entry, hentry, rfl⟩ := List.mem_map.1 hmem
        rw [hserved' entry hentry]
        refine hserved entry ?_
        rw [hwith]
        rw [hnow] at hentry
        exact List.mem_append.2 ((List.mem_append.1 hentry).imp_right (List.mem_cons_of_mem _))
      · rw [hothers' j hmem]
        refine hothers j fun hboth => ?_
        rw [hnow, List.map_append, List.mem_append, not_or] at hmem
        rw [hwith, List.map_append, List.map_cons, List.mem_append, List.mem_cons] at hboth
        rcases hboth with hfront | hsame | hback
        · exact hmem.1 hfront
        · exact hj hsame.symm
        · exact hmem.2 hback
  · -- the failed read brings no message
    rw [queue_set_slot, queue_of_wait_ok h, queue_of_wait_ok hwithout, hwith, hnow,
      List.flatMap_append, List.flatMap_cons, hread, hquiet, List.flatMap_append, List.nil_append]
    rfl

/-- The other clients are read as in the poll without the one whose read fails. -/
theorem reads_of_failed_read {n : Nat} {i : Fin maxClients} {c : Connection} (h : a.wait = .ok r)
    (hclient : s.clients[n]? = some (i, c)) (hready : r.isReady (n + 1) = true)
    (hroom : (s.slot i).buffer.isFull = false) :
    ∃ before after, ServerNotice.reads (s.poll a).notices = before ++ c :: after ∧
      ServerNotice.reads (s.poll (a.without (n + 1))).notices = before ++ after := by
  obtain ⟨before, after, hwith, hnow⟩ := ready_clients_without_client hclient hready
  rw [reads_poll_eq h, reads_poll_eq (PollAnswers.wait_without h (n + 1)), hwith, hnow,
    List.filter_append, List.filter_append, List.filter_cons, hroom, Bool.not_false, if_pos rfl,
    List.map_append, List.map_append, List.map_cons]
  exact ⟨_, _, rfl, rfl⟩

/-- If polls whose wait succeeds queue the same, their results are the same. -/
theorem result_congr {b : PollAnswers} {q : Readiness} (ha : a.wait = .ok r) (hb : b.wait = .ok q)
    (h : (s.poll a).server.queue = (s.poll b).server.queue) :
    (s.poll a).result = (s.poll b).result := by
  rw [result_of_wait_ok ha, result_of_wait_ok hb, h]

/-- A poll tells that its queue grew if and only if it tells of a message. -/
theorem grew_iff : (s.poll a).result = .ok true ↔
    ∃ text, ServerNotice.line (.message text) ∈ (s.poll a).notices := by
  cases hwait : a.wait with
  | error e =>
      cases hsignal : e.isInterrupted <;> simp [poll, hwait, hsignal]
  | ok r =>
      obtain ⟨hnotices, hqueue, _⟩ := poll_of_wait_ok (s := s) hwait
      have hquiet (text : String) :
          ServerNotice.line (.message text) ∉ (s.admitted r a.accept).2 := by
        rcases s.admitted_cases r a.accept with ⟨_, h | ⟨e, h⟩⟩ | ⟨c, peer, i, _, _, h⟩ |
          ⟨c, peer, _, _, h⟩
        all_goals simp [h]
      simp only [result_of_wait_ok hwait, hqueue, hnotices, List.mem_append, hquiet, false_or,
        ← ServerNotice.mem_messages, List.length_append, Except.ok.injEq, decide_eq_true_eq,
        Nat.lt_add_right_iff_pos, List.length_pos_iff_exists_mem]

/-- Failures stay where they arise, for every server and everything that the system may answer to a
poll. If the wait is interrupted or fails, the server stays as it was, and no accept or read has any
influence. If the accept fails, the outcome is that of the poll in which the port is not ready. If
the read of a client fails, the outcome is that of the poll in which this client is not ready, with
the same reads of the others, but for its slot, which keeps the connection and loses the bytes that
it held, unless the read was interrupted. And a poll tells that the queue grew if and only if a
message was completed in it. -/
theorem poll_isolates_failures (s : LineServer) (a : PollAnswers) :
    (∀ e, a.wait = .error e →
      (s.poll a).server = s ∧
        (s.poll a).notices = [if e.isInterrupted then .interrupted else .waitFailed e] ∧
        (s.poll a).result = (if e.isInterrupted then .ok false else .error (.system e)) ∧
        ∀ b : PollAnswers, b.wait = .error e → s.poll b = s.poll a) ∧
      (∀ e, a.accept = .error e →
        (s.poll a).server = (s.poll (a.without 0)).server ∧
          (s.poll a).result = (s.poll (a.without 0)).result) ∧
      (∀ r n i c e, a.wait = .ok r → s.clients[n]? = some (i, c) → r.isReady (n + 1) = true →
        (s.slot i).buffer.isFull = false → a.read c = .error e →
        (s.poll a).server = (s.poll (a.without (n + 1))).server.setSlot i
            (if e.isInterrupted then s.slot i else { s.slot i with buffer := .empty }) ∧
          (s.poll a).result = (s.poll (a.without (n + 1))).result ∧
          ∃ before after, ServerNotice.reads (s.poll a).notices = before ++ c :: after ∧
            ServerNotice.reads (s.poll (a.without (n + 1))).notices = before ++ after) ∧
      ((s.poll a).result = .ok true ↔
        ∃ text, ServerNotice.line (.message text) ∈ (s.poll a).notices) := by
  refine ⟨fun e hwait => ?_, fun e haccept => ?_,
    fun r n i c e hwait hclient hready hroom hread => ?_, grew_iff⟩
  · refine ⟨(poll_of_wait_error hwait).1, ?_, ?_, fun b => poll_congr_of_wait_error hwait⟩
    · cases hsignal : e.isInterrupted <;> simp [poll, hwait, hsignal]
    · cases hsignal : e.isInterrupted <;> simp [poll, hwait, hsignal]
  · cases hwait : a.wait with
    | error fault =>
        rw [poll_congr_of_wait_error hwait (PollAnswers.wait_without_of_error hwait 0)]
        exact ⟨rfl, rfl⟩
    | ok r =>
        have hserver : (s.poll a).server = (s.poll (a.without 0)).server := by
          refine poll_of_admitted_self hwait ?_
          rw [haccept]
          exact s.admitted_of_error r e
        exact ⟨hserver, result_congr hwait (PollAnswers.wait_without hwait 0) (by rw [hserver])⟩
  · have hserver := poll_of_failed_read hwait hclient hready hroom hread
    refine ⟨hserver, result_congr hwait (PollAnswers.wait_without hwait (n + 1)) ?_,
      reads_of_failed_read hwait hclient hready hroom⟩
    rw [hserver, queue_set_slot]

/-- Two clients, of which the first has sent four bytes of a line. -/
def twoClients : LineServer :=
  let silent : PollAnswers := ⟨.ok ⟨[]⟩, .error (.code 11), fun _ => .error (.code 11)⟩
  let first := (empty.poll { silent with wait := .ok ⟨[true]⟩, accept := .ok (0, "a") }).server
  let both := (first.poll { silent with wait := .ok ⟨[true]⟩, accept := .ok (1, "b") }).server
  let half : PollAnswers :=
    { silent with wait := .ok ⟨[false, true]⟩, read := fun _ => .ok [104, 97, 108, 102] }
  (both.poll half).server

/-- Everything is ready, but no descriptor can be made and the first client resets its connection.
The second client sends a line. -/
def troubles : PollAnswers where
  wait := .ok ⟨[true, true, true]⟩
  accept := .error (.code 24)
  read c := if c = 0 then .error (.code 104) else .ok [104, 105, 10]

/-- The line of the second client is taken as if nothing had failed. -/
theorem poll_isolates_troubles :
    let i : Fin maxClients := ⟨0, by decide⟩
    (twoClients.slot i).pendingBytes = 4 ∧
      (twoClients.poll troubles).server = (twoClients.poll (troubles.without 0)).server ∧
      (twoClients.poll troubles).server = (twoClients.poll (troubles.without 1)).server.setSlot i
        { twoClients.slot i with buffer := .empty } ∧
      (twoClients.poll troubles).result = .ok true := by
  intro i
  obtain ⟨-, haccept, hread, hgrew⟩ := poll_isolates_failures twoClients troubles
  refine ⟨by decide +kernel, (haccept (.code 24) rfl).1, ?_, hgrew.2 ⟨"hi", by decide +kernel⟩⟩
  exact (hread ⟨[true, true, true]⟩ 0 i 0 (.code 104) rfl (by decide +kernel) rfl
    (by decide +kernel) rfl).1

end LineServer

end EngineLink
