import EngineLink.Proofs.LineServer.Guarded
import EngineLink.Proofs.LineServer.Isolation

/-!
# The table of slots

Who gets a slot, and when a slot becomes free. Read `LineServer.slot_poll_cases` first: the only
things that a poll can make of a slot, whatever the system answers. `Session.slots_lawful` puts
together what holds of the slots in every session.
-/

namespace EngineLink

/-- A slot is free exactly if it has no connection. -/
theorem Slot.is_free_iff {slot : Slot} : slot.isFree = true ↔ slot.stream = none := by
  simp [isFree]

namespace LineServer

variable {s : LineServer}

/-! ## Free slots -/

/-- A slot without a client has no address and holds no bytes. -/
def Tidy (s : LineServer) : Prop :=
  ∀ i, (s.slot i).stream = none → s.slot i = .free

/-- Every slot holds a client. -/
def Full (s : LineServer) : Prop :=
  ∀ i, (s.slot i).isFree = false

/-- A slot is free and every slot before it holds a client. -/
def LowestFree (s : LineServer) (i : Fin maxClients) : Prop :=
  (s.slot i).isFree = true ∧ ∀ j < i, (s.slot j).isFree = false

/-- No slot is found free exactly if each holds a client. -/
theorem first_free_eq_none_iff : s.firstFree? = none ↔ s.Full := by
  simp [firstFree?, Full]

/-- The slot found free is the lowest free one. -/
theorem first_free_eq_some_iff {i : Fin maxClients} : s.firstFree? = some i ↔ s.LowestFree i := by
  rw [firstFree?, List.find?_eq_some_iff_getElem, LowestFree]
  refine and_congr_right fun _ => ⟨?_, fun h => ?_⟩
  · rintro ⟨n, hn, rfl, hbefore⟩ j hj
    simpa using hbefore j (by simpa [Fin.lt_def] using hj)
  · refine ⟨i, by simp, by simp, fun j hj => ?_⟩
    simpa using h ⟨j, hj.trans i.isLt⟩ hj

/-- There are no more clients than slots. -/
theorem active_clients_le (s : LineServer) : s.activeClients ≤ maxClients := by
  rw [activeClients, clients]
  exact (List.length_filterMap_le _ _).trans List.length_finRange.le

/-! ## What a poll makes of a slot -/

/-- A poll leaves a slot as it was, or keeps the client in it, or frees it because a read of its
client brought nothing, or gives it to a connection that it accepts. -/
theorem slot_poll_cases (s : LineServer) (a : PollAnswers) (i : Fin maxClients) :
    (s.poll a).server.slot i = s.slot i ∨
      (∃ c, (s.slot i).stream = some c ∧ (((s.poll a).server.slot i).stream = some c ∨
        (s.poll a).server.slot i = .free ∧ a.read c = .ok [] ∧
          ∃ room, ServerNotice.reading i c room ∈ (s.poll a).notices)) ∨
      s.LowestFree i ∧ ∃ c peer, a.accept = .ok (c, peer) ∧
        (s.poll a).server.slot i = .occupied c peer := by
  cases hwait : a.wait with
  | error e =>
      rw [(poll_of_wait_error hwait).1]
      exact .inl rfl
  | ok r =>
      obtain ⟨hnotices, _, hserved, hothers⟩ := poll_of_wait_ok (s := s) hwait
      by_cases hready : i ∈ (s.readyClients r).map Prod.fst
      · obtain ⟨⟨i, c⟩, hentry, rfl⟩ := List.mem_map.1 hready
        have hheld := mem_clients_of_ready hentry
        refine .inr (.inl ⟨c, hheld, ?_⟩)
        rw [hserved _ hentry]
        refine (Slot.served_of_held hheld i (a.read c)).imp_right ?_
        rintro ⟨hfree, hroom, hend⟩
        refine ⟨hfree, hend, (s.slot i).buffer.remaining, ?_⟩
        rw [hnotices]
        refine List.mem_append_right _ (List.mem_flatMap.2 ⟨_, hentry, ?_⟩)
        rw [hend, Slot.served_of_end i c hroom]
        exact List.mem_cons_self
      · rw [hothers i hready]
        rcases s.admitted_cases r a.accept with ⟨hkept, _⟩ | ⟨c, peer, j, haccept, hfree, hadded⟩ |
          ⟨c, peer, _, _, hrejected⟩
        · rw [hkept]
          exact .inl rfl
        · rw [hadded]
          by_cases hj : j = i
          · subst hj
            refine .inr (.inr ⟨first_free_eq_some_iff.1 hfree, c, peer, haccept, ?_⟩)
            exact slot_set_slot_same s j _
          · exact .inl (slot_set_slot_other s _ hj)
        · rw [hrejected]
          exact .inl rfl

/-- A poll keeps free slots empty. -/
theorem tidy_poll (h : s.Tidy) (a : PollAnswers) : (s.poll a).server.Tidy := by
  intro i hfree
  rcases s.slot_poll_cases a i with hkept | ⟨c, _, hheld | ⟨hslot, _⟩⟩ | ⟨_, c, peer, _, hslot⟩
  · rw [hkept] at hfree ⊢
    exact h i hfree
  · rw [hheld] at hfree
    cases hfree
  · exact hslot
  · rw [hslot] at hfree
    cases hfree

/-- The client of a slot keeps it in a poll, unless a read of it brought nothing. -/
theorem held_poll {i : Fin maxClients} {c : Connection} (hheld : (s.slot i).stream = some c)
    (a : PollAnswers) :
    ((s.poll a).server.slot i).stream = some c ∨
      (s.poll a).server.slot i = .free ∧ a.read c = .ok [] ∧
        ∃ room, ServerNotice.reading i c room ∈ (s.poll a).notices := by
  rcases s.slot_poll_cases a i with hkept | ⟨d, hd, hslot⟩ | ⟨⟨hfree, _⟩, _⟩
  · rw [hkept]
    exact .inl hheld
  · obtain rfl : d = c := Option.some.inj (hd.symm.trans hheld)
    exact hslot
  · rw [Slot.is_free_iff, hheld] at hfree
    cases hfree

/-! ## Who is accepted -/

section
variable {a : PollAnswers} {r : Readiness} {c : Connection} {peer : Address}

/-- An accepted connection gets the lowest free slot. -/
theorem poll_of_lowest_free {i : Fin maxClients} (hwait : a.wait = .ok r)
    (hport : r.isReady 0 = true) (haccept : a.accept = .ok (c, peer)) (hfree : s.LowestFree i) :
    (s.poll a).server = (s.poll (a.without 0)).server.setSlot i (.occupied c peer) := by
  refine poll_of_admitted_slot hwait ?_ fun d hready => ?_
  · rw [admitted, if_pos hport, haccept, enroll, first_free_eq_some_iff.2 hfree]
  · have hheld := mem_clients_of_ready hready
    rw [Slot.is_free_iff.1 hfree.1] at hheld
    cases hheld

/-- With every slot taken, an accepted connection leaves the slots as they are. -/
theorem poll_of_full (hwait : a.wait = .ok r) (hport : r.isReady 0 = true)
    (haccept : a.accept = .ok (c, peer)) (hfull : s.Full) :
    (s.poll a).server = (s.poll (a.without 0)).server := by
  refine poll_of_admitted_self hwait ?_
  rw [admitted, if_pos hport, haccept, enroll, first_free_eq_none_iff.2 hfull]

/-- An accepted connection is rejected if and only if every slot is taken. -/
theorem rejected_poll_iff (hwait : a.wait = .ok r) (hport : r.isReady 0 = true)
    (haccept : a.accept = .ok (c, peer)) :
    ServerNotice.rejected c ∈ (s.poll a).notices ↔ s.Full := by
  have hserved : ServerNotice.rejected c ∉ s.servedNotices r a.read := by
    intro hmem
    obtain ⟨entry, _, hnotice⟩ := List.mem_flatMap.1 hmem
    exact absurd (Slot.not_admitted_served _ _ _ _ _ hnotice).2 (by simp [ServerNotice.rejected?])
  rw [(poll_of_wait_ok hwait).1, List.mem_append, or_iff_left hserved, admitted, if_pos hport,
    haccept, ← first_free_eq_none_iff]
  cases hfree : s.firstFree? <;> simp [enroll, hfree]

end

end LineServer

/-! ## Rejected connections -/

namespace Loopback

/-- Closing connections marks those that were made, and unmarks none. -/
theorem dropped_drop (w : Loopback) (cs : List Connection) (c : Connection) :
    ((w.drop cs).flow c).dropped =
      ((w.flow c).dropped || decide (c ∈ cs ∧ c < w.flows.length)) := by
  induction cs generalizing w with
  | nil => simp [drop]
  | cons d rest ih =>
      have hrest := ih (w.modify d fun f => { f with dropped := true })
      rw [flow_modify, length_flows_modify] at hrest
      rw [drop, List.foldl_cons]
      refine hrest.trans ?_
      by_cases hd : c = d
      · subst hd
        by_cases hmade : c < w.flows.length <;> simp [hmade]
      · simp [hd]

/-- A change of a connection that keeps whether the server has closed it. -/
theorem dropped_modify (w : Loopback) (d c : Connection) {f : Inflow → Inflow}
    (h : ∀ g, (f g).dropped = g.dropped) :
    ((w.modify d f).flow c).dropped = (w.flow c).dropped := by
  rw [flow_modify]
  split
  · next hsame => rw [h, hsame.1]
  · rfl

end Loopback

/-- A reading does not close a connection. -/
theorem Chance.dropped_reading (k : Chance) (w : Loopback) (s : LineServer) (c : Connection) :
    (k.reading w s c).2.dropped = (w.flow c).dropped := by
  unfold reading
  split
  · rfl
  · unfold Inflow.read
    split
    · rfl
    · split <;> rfl

namespace Session

variable {x : Session} {k : Chance}

/-- The server has closed every connection that it rejected. -/
def Dismissed (x : Session) : Prop :=
  ∀ c ∈ x.rejected, (x.network.flow c).dropped = true

/-- What the server has closed stays closed in a poll, and what the poll tells it closes is
closed. -/
theorem dropped_poll {c : Connection}
    (h : (x.network.flow c).dropped = true ∨ c < x.network.flows.length ∧
      c ∈ ServerNotice.closed (x.server.poll (k.answers x.network x.server)).notices) :
    ((x.poll k).network.flow c).dropped = true := by
  generalize hnotices : (x.server.poll (k.answers x.network x.server)).notices = notices at h
  obtain ⟨w, hflows, hafter⟩ : ∃ w : Loopback, w.flows = x.network.flows ∧
      (x.poll k).network = ((ServerNotice.reads notices).foldl
        (fun w c => w.modify c fun _ => (k.reading x.network x.server c).2) w).drop
          (ServerNotice.closed notices) := by
    rw [← hnotices]
    exact ⟨⟨x.network.flows, x.network.waiting.drop _, x.network.limit, x.network.unreachable⟩,
      rfl, rfl⟩
  obtain ⟨hlength, -, hread⟩ :=
    w.foldl_modify (ServerNotice.reads notices) fun c => (k.reading x.network x.server c).2
  have hflow : w.flow c = x.network.flow c := by rw [Loopback.flow, Loopback.flow, hflows]
  have hkept : (((ServerNotice.reads notices).foldl
      (fun w c => w.modify c fun _ => (k.reading x.network x.server c).2) w).flow c).dropped =
        (x.network.flow c).dropped := by
    rw [hread c, hflow]
    split
    · exact k.dropped_reading x.network x.server c
    · rfl
  rw [hafter, Loopback.dropped_drop, hkept, hlength, hflows]
  rcases h with hdropped | ⟨hmade, hclosed⟩
  · rw [hdropped, Bool.true_or]
  · rw [decide_eq_true ⟨hclosed, hmade⟩, Bool.or_true]

/-- A poll closes the connection that it rejects. -/
theorem dismissed_poll (hsound : x.Sound) (h : x.Dismissed) (k : Chance) :
    (x.poll k).Dismissed := by
  cases hwait : k.wait with
  | some e =>
      rw [poll_of_wait_failure hwait]
      exact h
  | none =>
      intro c hc
      have hmade := (sound_poll hsound k).made c (List.mem_append_left _ hc)
      rw [(network_poll hwait).1] at hmade
      rcases List.mem_append.1 hc with hbefore | hnow
      · exact dropped_poll (.inl (h c hbefore))
      · obtain ⟨notice, hnotice, hrejected⟩ := List.mem_filterMap.1 hnow
        obtain rfl : notice = .rejected c := by
          cases notice <;> cases hrejected
          rfl
        exact dropped_poll (.inr ⟨hmade, List.mem_filterMap.2 ⟨_, hnotice, rfl⟩⟩)

/-- Every event keeps the rejected connections closed. -/
theorem dismissed_step (hsound : x.Sound) (h : x.Dismissed) (event : Event) :
    (x.step event).Dismissed := by
  cases event with
  | connect =>
      intro c hc
      show (x.network.connect.2.flow c).dropped = true
      rw [x.network.flow_connect]
      exact h c hc
  | send d bytes =>
      intro c hc
      refine (x.network.dropped_modify d c (f := fun f => f.send bytes) fun g => ?_).trans (h c hc)
      unfold Inflow.send
      split <;> rfl
  | finish d ending =>
      intro c hc
      refine (x.network.dropped_modify d c (f := fun f => f.finish ending) fun g => ?_).trans
        (h c hc)
      unfold Inflow.finish
      split <;> rfl
  | poll k => exact dismissed_poll hsound h k
  | next => exact h

/-- In every session the server has closed the connections that it rejected. -/
theorem dismissed_run (events : List Event) : (run events).Dismissed := by
  have hboth : (run events).Sound ∧ (run events).Dismissed :=
    run_induction (P := fun x => x.Sound ∧ x.Dismissed)
      ⟨sound_start, fun c hc => nomatch hc⟩
      (fun _ h event => ⟨sound_step h.1 event, dismissed_step h.1 h.2 event⟩) events
  exact hboth.2

/-- A connection that was rejected stays rejected. -/
theorem rejected_steps {c : Connection} (h : c ∈ x.rejected) (events : List Event) :
    c ∈ (events.foldl step x).rejected := by
  induction events generalizing x with
  | nil => exact h
  | cons event rest ih =>
      refine ih ?_
      cases event with
      | poll k => exact List.mem_append_left _ h
      | connect | send | finish | next => exact h

/-! ## Every session -/

/-- Only polls change slots. -/
theorem slots_step_of_not_poll (x : Session) {event : Event} (h : ∀ k, event ≠ .poll k) :
    (x.step event).server.slots = x.server.slots := by
  cases event with
  | poll k => exact absurd rfl (h k)
  | connect | send | finish | next => rfl

/-- In every session a free slot is empty. -/
theorem tidy_run (events : List Event) : (run events).server.Tidy := by
  refine run_induction (P := fun x => x.server.Tidy) (fun i _ => LineServer.slot_empty i)
    (fun x h event => ?_) events
  cases event with
  | poll k => exact LineServer.tidy_poll h _
  | connect | send | finish | next => exact h

/-- In every session, and whatever the system answers to the next poll: a slot is free if it has no
connection, and then it has no address and holds no bytes; no connection has two slots, and at most
ten slots are taken. If the port is ready and its accept succeeds, the connection gets the slot that
was the lowest free one at the start of the poll, and the poll is else what it is without the port;
with all slots taken at the start, and only then, it is rejected. A connection that is rejected is
closed in the same poll, and never read or given a slot whatever happens afterwards. A slot loses
its client only in a poll in which a read of this client brought nothing. -/
theorem slots_lawful (events : List Event) :
    let x := run events
    let s := x.server
    (∀ i, ((s.slot i).isFree = true ↔ (s.slot i).stream = none) ∧
      ((s.slot i).isFree = true → (s.slot i).peer = none ∧ (s.slot i).buffer = .empty)) ∧
    (∀ i j c, (s.slot i).stream = some c → (s.slot j).stream = some c → i = j) ∧
    s.activeClients ≤ 10 ∧
    (∀ a r c peer, a.wait = .ok r → r.isReady 0 = true → a.accept = .ok (c, peer) →
      (∀ i, s.LowestFree i →
        (s.poll a).server = (s.poll (a.without 0)).server.setSlot i ⟨some c, some peer, .empty⟩) ∧
      (ServerNotice.rejected c ∈ (s.poll a).notices ↔ s.Full) ∧
      (s.Full → (s.poll a).server = (s.poll (a.without 0)).server)) ∧
    (∀ k c, ServerNotice.rejected c ∈ (s.poll (k.answers x.network s)).notices → ∀ more,
      let y := run (events ++ .poll k :: more)
      (y.network.flow c).dropped = true ∧ y.reads c = [] ∧
        ∀ i, (y.server.slot i).stream ≠ some c) ∧
    (∀ a i c, (s.slot i).stream = some c → ((s.poll a).server.slot i).stream = some c ∨
      (s.poll a).server.slot i = .free ∧ a.read c = .ok [] ∧
        ∃ room, ServerNotice.reading i c room ∈ (s.poll a).notices) ∧
    ∀ event, (∀ k, event ≠ .poll k) → (x.step event).server.slots = s.slots := by
  intro x s
  have hsound : x.Sound := sound_run events
  refine ⟨fun i => ⟨Slot.is_free_iff, fun hfree => ?_⟩, hsound.distinct, s.active_clients_le,
    fun a r c peer hwait hport haccept =>
      ⟨fun i => LineServer.poll_of_lowest_free hwait hport haccept,
        LineServer.rejected_poll_iff hwait hport haccept,
        LineServer.poll_of_full hwait hport haccept⟩,
    fun k c hrejected more => ?_, fun a i c hheld => LineServer.held_poll hheld a,
    fun event => x.slots_step_of_not_poll⟩
  · have hslot : s.slot i = .free := tidy_run events i (Slot.is_free_iff.1 hfree)
    rw [hslot]
    exact ⟨rfl, rfl⟩
  · intro y
    have hy : y = more.foldl step (x.poll k) := by
      show (events ++ .poll k :: more).foldl step start = _
      rw [List.foldl_append]
      rfl
    have hgone : c ∈ y.rejected := by
      rw [hy]
      refine rejected_steps (List.mem_append_right _ ?_) more
      exact List.mem_filterMap.2 ⟨_, hrejected, rfl⟩
    obtain ⟨hreads, hslots⟩ :=
      (sound_run (events ++ .poll k :: more)).outside c (.inl (List.mem_append_left _ hgone))
    exact ⟨dismissed_run _ c hgone, hreads, hslots⟩

/-- Eleven clients connect, ten of them are accepted, and then the fourth closes its connection. -/
def crowd : List Event :=
  List.replicate 11 .connect ++ List.replicate 10 (.poll .smooth) ++ [.finish 3 .closed]

/-- The eleventh client is rejected though the poll that accepts it frees a slot. -/
theorem slots_lawful_of_crowd :
    let x := run crowd
    let i : Fin maxClients := ⟨3, by decide⟩
    let y := run (crowd ++ .poll .smooth :: [.send 10 [104, 105, 10], .poll .smooth])
    x.server.Full ∧ ((x.poll .smooth).server.slot i).isFree = true ∧
      (y.network.flow 10).dropped = true ∧ y.reads 10 = [] := by
  intro x i y
  obtain ⟨-, -, -, haccept, hrejected, -, -⟩ := slots_lawful crowd
  have hfull : x.server.Full := by
    unfold LineServer.Full
    decide +kernel
  have hnotice : ServerNotice.rejected 10 ∈
      (x.server.poll (Chance.smooth.answers x.network x.server)).notices :=
    (haccept _ _ 10 Loopback.clientAddress (wait_answers rfl) (by decide +kernel)
      (by decide +kernel)).2.1.2 hfull
  obtain ⟨hdropped, hreads, -⟩ :=
    hrejected .smooth 10 hnotice [.send 10 [104, 105, 10], .poll .smooth]
  exact ⟨hfull, by decide +kernel, hdropped, hreads⟩

end Session

end EngineLink
