import EngineLink.Proofs.LineServer.Guarded
import Mathlib.Algebra.BigOperators.Group.Finset.Piecewise
import Mathlib.Algebra.Order.BigOperators.Group.Finset

/-!
# A server that is polled settles

As long as every call succeeds, only so many polls find something ready, and when nothing is ready
any more, everything has been accepted and read and the slots of closed connections are free. Read
`Session.work` first: what there is to do, which every poll that finds something makes less.
`Session.Placed` says where each connection is, and `Session.polls_settle` is the result.
-/

namespace EngineLink

open Finset

/-- Every call of a poll succeeds. A read at a reset fails all the same. -/
structure Chance.Succeeds (k : Chance) : Prop where
  wait : k.wait = none
  accept : k.accept = none
  read : ∀ c, ∃ n, k.read c = .ok n

/-- In a smooth poll every call succeeds. -/
theorem Chance.succeeds_smooth : smooth.Succeeds where
  wait := rfl
  accept := rfl
  read _ := ⟨lineCapacity, rfl⟩

/-- How many polls what can be read from a connection may take: a byte one for its read, and one
more if it fills a buffer; a reset one for the read that fails. -/
def Inflow.work (f : Inflow) : Nat :=
  2 * f.unread.length + if f.ending = .reset then 1 else 0

/-- How many polls a connection may take depends on its unread bytes and its ending alone. -/
theorem Inflow.work_congr {f g : Inflow} (hunread : f.unread = g.unread)
    (hending : f.ending = g.ending) : f.work = g.work := by
  rw [work, work, hunread, hending]

/-- A read of a connection that is ready brings bytes, or finds its end, or fails once at a
reset. -/
theorem Chance.Succeeds.reading {k : Chance} (hk : k.Succeeds) {w : Loopback} {s : LineServer}
    {c : Connection} (hready : (w.flow c).report.isReady = true) (hroom : 0 < s.roomFor c) :
    (∃ bytes, bytes ≠ [] ∧ (k.reading w s c).1 = .ok bytes ∧
        (k.reading w s c).2.work + 2 ≤ (w.flow c).work) ∨
      (k.reading w s c).1 = .ok [] ∨
      ∃ e, e.isInterrupted = false ∧ (k.reading w s c).1 = .error e ∧
        (k.reading w s c).2.work + 1 ≤ (w.flow c).work := by
  obtain ⟨n, hn⟩ := hk.read c
  have hmin : 0 < min (n + 1) (s.roomFor c) := by omega
  unfold Chance.reading
  rw [hn]
  show (∃ bytes, bytes ≠ [] ∧ ((w.flow c).read (min (n + 1) (s.roomFor c))).1 = .ok bytes ∧ _) ∨ _
  generalize min (n + 1) (s.roomFor c) = room at hmin
  generalize w.flow c = f at hready
  unfold Inflow.read
  split
  · next hunread =>
      have hlength := List.length_pos_iff.2 hunread
      refine .inl ⟨f.unread.take room, ?_, rfl, ?_⟩
      · intro hnone
        rcases List.take_eq_nil_iff.1 hnone with hzero | hnil
        · exact absurd hzero (Nat.ne_of_gt hmin)
        · exact absurd hnil hunread
      · simp only [Inflow.work, List.length_drop]
        omega
  · next hunread =>
      have hunread : f.unread = [] := by simpa using hunread
      split
      · next hunended => exact absurd ⟨hunread, hunended⟩ (Inflow.not_blocks_of_ready hready)
      · exact .inr (.inl rfl)
      · next hreset =>
          refine .inr (.inr ⟨.code 104, rfl, rfl, ?_⟩)
          simp [Inflow.work, hreset]

namespace Session

/-! ## What there is to do -/

/-- How many polls a slot may take: one for the end of its connection, one for a full buffer, and
those for what can be read. -/
def slotWork (x : Session) (i : Fin maxClients) : Nat :=
  match (x.server.slot i).stream with
  | none => 0
  | some c =>
      1 + (if (x.server.slot i).buffer.isFull then 1 else 0) + (x.network.flow c).work

/-- How many polls the queue of the port may take: each connection one for its accept, and those of
a slot. -/
def waitingWork (x : Session) : Nat :=
  (x.network.waiting.map fun c => 2 + (x.network.flow c).work).sum

/-- How many polls may find something ready. -/
def work (x : Session) : Nat :=
  x.waitingWork + ∑ i, x.slotWork i

/-- The wait of a poll reports something that is ready. -/
def Finds (x : Session) (k : Chance) : Prop :=
  ∃ watched ∈ x.server.watched,
    k.reports watched = true ∧ (x.network.report watched).isReady = true

variable {x : Session} {k : Chance} {i : Fin maxClients}

/-- A slot with a client may take polls for its end, for its full buffer and for what can be read.
-/
theorem slot_work_of_held {slot : Slot} {c : Connection} (hslot : x.server.slot i = slot)
    (h : slot.stream = some c) :
    x.slotWork i = 1 + (if slot.buffer.isFull then 1 else 0) + (x.network.flow c).work := by
  rw [slotWork, hslot, h]

/-- A free slot takes no poll. -/
theorem slot_work_of_free {slot : Slot} (hslot : x.server.slot i = slot)
    (h : slot.stream = none) : x.slotWork i = 0 := by
  rw [slotWork, hslot, h]

/-! ## What a poll does of it -/

/-- A poll does some of the work of each slot that it serves. -/
theorem slot_work_poll_lt (hsound : x.Sound) (hk : k.Succeeds) {c : Connection}
    (hready : (i, c) ∈ x.ready k) : (x.poll k).slotWork i < x.slotWork i := by
  have hheld := LineServer.mem_clients_of_ready hready
  have hslot : (x.poll k).server.slot i =
      ((x.server.slot i).served i c (k.reading x.network x.server c).1).1 :=
    slot_poll_serving hk.wait hready
  obtain ⟨hunread, hending⟩ := flow_poll_of_ready hsound hk.wait hready
  have hafter := Inflow.work_congr hunread hending
  have hcleared : (x.server.slot i).clear.stream = some c := hheld
  have hempty : (x.server.slot i).clear.buffer.isFull = false :=
    (by decide : LineBuffer.empty.isFull = false)
  rw [slot_work_of_held rfl hheld]
  cases hfull : (x.server.slot i).buffer.isFull with
  | true =>
      -- the buffer is discarded, and what can be read stays
      rw [hfull, if_pos rfl] at hafter
      rw [Slot.served_of_full i c hfull] at hslot
      rw [slot_work_of_held hslot hcleared, hempty, hafter]
      simp
  | false =>
      rw [hfull] at hafter
      rcases hk.reading (report_of_ready hready) (room_for_pos hsound hheld hfull) with
        ⟨bytes, hbytes, hread, hless⟩ | hread | ⟨e, hsignal, hread, hless⟩
      · -- a byte is gone at least, though the buffer may be full now
        rw [hread, Slot.served_of_bytes i c hfull hbytes] at hslot
        rw [slot_work_of_held hslot hheld, hafter]
        simp only [Bool.false_eq_true, if_false]
        split <;> omega
      · rw [hread, Slot.served_of_end i c hfull] at hslot
        rw [slot_work_of_free hslot rfl]
        omega
      · rw [hread, Slot.served_of_failure i c hfull hsignal] at hslot
        rw [slot_work_of_held hslot hcleared, hempty, hafter]
        simp only [Bool.false_eq_true, if_false]
        omega

/-- What can be read from a connection without a slot is not touched by a poll. -/
theorem flow_work_poll_of_outside (hsound : x.Sound) (hwait : k.wait = none) {c : Connection}
    (hout : x.Outside c) : ((x.poll k).network.flow c).work = (x.network.flow c).work := by
  obtain ⟨hunread, hending⟩ := flow_poll_of_not_ready hwait (not_ready_of_outside hsound hout)
  exact Inflow.work_congr hunread hending

/-- A poll adds nothing to the work of a slot, unless its accept fills it. -/
theorem slot_work_poll_le (hsound : x.Sound) (hk : k.Succeeds)
    (hkept : (x.admission k).1.slot i = x.server.slot i) :
    (x.poll k).slotWork i ≤ x.slotWork i := by
  by_cases hready : ∃ c, (i, c) ∈ x.ready k
  · obtain ⟨c, hready⟩ := hready
    exact (slot_work_poll_lt hsound hk hready).le
  · rw [not_exists] at hready
    have hslot : (x.poll k).server.slot i = x.server.slot i := by
      rw [slot_poll_admission hk.wait hready, hkept]
    cases hheld : (x.server.slot i).stream with
    | none => rw [slot_work_of_free hslot hheld, slot_work_of_free rfl hheld]
    | some c =>
        have hunserved : ∀ j, (j, c) ∉ x.ready k := by
          intro j hentry
          rw [hsound.distinct i j c hheld (LineServer.mem_clients_of_ready hentry)] at hready
          exact hready c hentry
        obtain ⟨hunread, hending⟩ := flow_poll_of_not_ready hk.wait hunserved
        rw [slot_work_of_held hslot hheld, slot_work_of_held rfl hheld,
          Inflow.work_congr hunread hending]

/-- The work of the slot that an accepted connection gets. -/
theorem slot_work_poll_of_accepted (hsound : x.Sound) (hk : k.Succeeds) {c : Connection}
    {peer : Address} {rest : List Connection} (hwaits : x.network.waiting = c :: rest)
    (hfree : (x.server.slot i).stream = none)
    (hslot : (x.admission k).1.slot i = .occupied c peer) :
    (x.poll k).slotWork i = 1 + (x.network.flow c).work := by
  have hafter : (x.poll k).server.slot i = .occupied c peer := by
    rw [slot_poll_admission hk.wait (not_ready_of_free hfree), hslot]
  have hempty : (Slot.occupied c peer).buffer.isFull = false :=
    (by decide : LineBuffer.empty.isFull = false)
  rw [slot_work_of_held hafter rfl, hempty,
    flow_work_poll_of_outside hsound hk.wait (outside_of_waiting hwaits)]
  simp

/-- The work of the connections that still wait after a poll is what it was. -/
theorem waiting_work_poll (hsound : x.Sound) (hwait : k.wait = none) :
    (x.poll k).waitingWork = ((x.network.waiting.drop
      ((x.admission k).2.filterMap ServerNotice.accepted?).length).map
        fun c => 2 + (x.network.flow c).work).sum := by
  rw [waitingWork, (network_poll hwait).2.1]
  congr 1
  refine List.map_congr_left fun c hc => ?_
  have hout : x.Outside c := .inl (List.mem_append_right _ (List.mem_of_mem_drop hc))
  rw [flow_work_poll_of_outside hsound hwait hout]

/-- A poll whose wait reports the port accepts a connection. -/
theorem accepted_of_port (hk : k.Succeeds) (hroomy : x.network.limit = .roomy)
    (hreports : k.reports .port = true) (hwaits : x.network.waiting ≠ []) :
    (x.admission k).2.filterMap ServerNotice.accepted? ≠ [] := by
  obtain ⟨c, rest, hrest⟩ := List.exists_cons_of_ne_nil hwaits
  have hport : (x.reported k).isReady 0 = true := by
    show (k.reports .port && (x.network.report .port).isReady) = true
    rw [hreports]
    simp [Loopback.report, Report.isReady, hrest]
  have haccept : (k.answers x.network x.server).accept = .ok (c, Loopback.clientAddress) := by
    simp [Chance.answers, hk.accept, Loopback.accept, hroomy, DescriptorLimit.refusal?, hrest]
  rw [admission, LineServer.admitted, if_pos hport, haccept]
  cases hfree : x.server.firstFree? <;> simp [LineServer.enroll, hfree, ServerNotice.accepted?]

/-- If nothing is accepted, what the wait of a poll reports is a client. -/
theorem ready_of_finds (hk : k.Succeeds) (hroomy : x.network.limit = .roomy) (hfinds : x.Finds k)
    (hnone : (x.admission k).2.filterMap ServerNotice.accepted? = []) :
    ∃ i c, (i, c) ∈ x.ready k := by
  obtain ⟨watched, hwatched, hreports, hready⟩ := hfinds
  cases watched with
  | port =>
      have hwaits : x.network.waiting ≠ [] := by
        simpa [Loopback.report, Report.isReady] using hready
      exact absurd hnone (accepted_of_port hk hroomy hreports hwaits)
  | client c =>
      obtain ⟨place, hplace⟩ := List.mem_iff_getElem?.1 hwatched
      have hreported : (x.reported k).isReady place = true := by
        simp [reported, Readiness.isReady, hplace, hreports, hready]
      obtain ⟨i, hentry⟩ := LineServer.ready_of_place hplace hreported
      exact ⟨i, c, hentry⟩

/-- An accepted connection adds its work to that of the slots. -/
theorem sum_slot_work_poll_of_accepted (hsound : x.Sound) (hk : k.Succeeds) {c : Connection}
    {peer : Address} {rest : List Connection} (hwaits : x.network.waiting = c :: rest)
    (hfree : (x.server.slot i).stream = none)
    (hserver : (x.admission k).1 = x.server.setSlot i (.occupied c peer)) :
    ∑ j, (x.poll k).slotWork j ≤ ∑ j, x.slotWork j + (1 + (x.network.flow c).work) := by
  have hslots : ∀ j ∈ univ, (x.poll k).slotWork j ≤
      x.slotWork j + if j = i then 1 + (x.network.flow c).work else 0 := by
    intro j _
    by_cases hj : j = i
    · subst hj
      have hslot : (x.admission k).1.slot j = .occupied c peer := by
        rw [hserver, LineServer.slot_set_slot_same]
      rw [slot_work_poll_of_accepted hsound hk hwaits hfree hslot, if_pos rfl]
      exact Nat.le_add_left _ _
    · have hslot : (x.admission k).1.slot j = x.server.slot j := by
        rw [hserver, LineServer.slot_set_slot_other _ _ (Ne.symm hj)]
      rw [if_neg hj]
      exact slot_work_poll_le hsound hk hslot
  have hsum := sum_le_sum hslots
  rwa [sum_add_distrib, sum_ite_eq' univ i, if_pos (mem_univ i)] at hsum

/-- Every poll that finds something does some of the work. -/
theorem work_poll_lt (hsound : x.Sound) (hroomy : x.network.limit = .roomy) (hk : k.Succeeds)
    (hfinds : x.Finds k) : (x.poll k).work < x.work := by
  rw [work, work, waiting_work_poll hsound hk.wait, waitingWork]
  rcases x.admission_cases k with ⟨hserver, haccepted, _⟩ |
    ⟨c, peer, i, rest, hwaits, hfree, hserver, haccepted, _⟩ |
    ⟨c, rest, hwaits, hserver, haccepted, _⟩
  · -- nothing is accepted, so it is a client that the wait reports
    have hslots : ∀ i ∈ univ, (x.poll k).slotWork i ≤ x.slotWork i :=
      fun i _ => slot_work_poll_le hsound hk (by rw [hserver])
    obtain ⟨i, c, hentry⟩ := ready_of_finds hk hroomy hfinds haccepted
    have hless : ∑ i, (x.poll k).slotWork i < ∑ i, x.slotWork i :=
      sum_lt_sum hslots ⟨i, mem_univ i, slot_work_poll_lt hsound hk hentry⟩
    rw [haccepted, List.length_nil, List.drop_zero]
    omega
  · -- the accepted connection takes its work to the slot that it gets
    have hsum := sum_slot_work_poll_of_accepted hsound hk hwaits
      (LineServer.is_free_of_first_free hfree) hserver
    rw [haccepted, hwaits]
    show (rest.map _).sum + _ < ((c :: rest).map _).sum + _
    rw [List.map_cons, List.sum_cons]
    omega
  · -- the rejected connection takes its work with it
    have hslots : ∑ i, (x.poll k).slotWork i ≤ ∑ i, x.slotWork i :=
      sum_le_sum fun i _ => slot_work_poll_le hsound hk (by rw [hserver])
    rw [haccepted, hwaits]
    show (rest.map _).sum + _ < ((c :: rest).map _).sum + _
    rw [List.map_cons, List.sum_cons]
    omega

/-! ## Where the connections are -/

/-- Where the connections of a session are. -/
structure Placed (x : Session) : Prop where
  /-- The program can make descriptors. -/
  roomy : x.network.limit = .roomy
  /-- A connection waits or was rejected, or it has a slot, or it was closed and read to its end. -/
  placed : ∀ c < x.network.flows.length, c ∈ x.rejected ++ x.network.waiting ∨
    (∃ i, (x.server.slot i).stream = some c) ∨
      (x.network.flow c).unread = [] ∧ (x.network.flow c).ending = .closed

/-- Before any connection all of them have their place. -/
theorem placed_start : start.Placed where
  roomy := rfl
  placed _ hc := absurd hc (Nat.not_lt_zero _)

/-- A connection that is made waits. -/
theorem placed_connect (h : x.Placed) : x.connect.Placed := by
  refine ⟨x.network.limit_connect.trans h.roomy, fun c hc => ?_⟩
  show c ∈ x.rejected ++ x.network.connect.2.waiting ∨ _ ∨
    (x.network.connect.2.flow c).unread = [] ∧ (x.network.connect.2.flow c).ending = .closed
  rw [x.network.flow_connect]
  rcases x.network.connect_cases with ⟨hlength, hwaiting⟩ | ⟨hlength, hwaiting⟩
  · rw [hwaiting]
    exact h.placed c (hlength ▸ hc)
  · rw [hwaiting, ← List.append_assoc, List.mem_append, List.mem_singleton]
    rcases Nat.lt_succ_iff_lt_or_eq.1 (hlength ▸ hc) with hold | hnew
    · rcases h.placed c hold with houtside | hplaced
      · exact .inl (.inl houtside)
      · exact .inr hplaced
    · exact .inl (.inr hnew)

/-- Behind the end of a connection nothing is sent, and it does not end again. -/
theorem placed_modify (h : x.Placed) (c : Connection) {f : Inflow → Inflow}
    (hkeeps : ∀ g : Inflow, g.ending = .closed → f g = g) :
    ({ x with network := x.network.modify c f } : Session).Placed := by
  refine ⟨h.roomy, fun d hd => ?_⟩
  rw [Loopback.length_flows_modify] at hd
  rcases h.placed d hd with houtside | hheld | ⟨hunread, hclosed⟩
  · exact .inl houtside
  · exact .inr (.inl hheld)
  · refine .inr (.inr ?_)
    show ((x.network.modify c f).flow d).unread = [] ∧
      ((x.network.modify c f).flow d).ending = .closed
    rw [Loopback.flow_modify]
    split
    · next heq =>
        rw [← heq.1, hkeeps _ hclosed]
        exact ⟨hunread, hclosed⟩
    · exact ⟨hunread, hclosed⟩

/-- A connection that loses its slot in a poll was closed and has been read to its end. -/
theorem placed_poll_of_held (hsound : x.Sound) (hwait : k.wait = none) {c : Connection}
    (hheld : (x.server.slot i).stream = some c) :
    (∃ j, ((x.poll k).server.slot j).stream = some c) ∨
      ((x.poll k).network.flow c).unread = [] ∧ ((x.poll k).network.flow c).ending = .closed := by
  by_cases hready : (i, c) ∈ x.ready k
  · have hslot := slot_poll_serving hwait hready
    simp only [serving] at hslot
    rcases (slot_poll_of_ready hsound hwait hready).1 with hfree | ⟨hstays, _⟩
    · have hfreed : ((x.server.slot i).served i c (k.reading x.network x.server c).1).1.stream =
          none := by
        rw [← hslot, hfree]
        rfl
      obtain ⟨hroom, hnothing⟩ := Slot.freed_served hheld hfreed
      obtain ⟨hunread, hclosed, hsame⟩ :=
        Chance.reading_end (room_for_pos hsound hheld hroom) hnothing
      obtain ⟨hafter, hended⟩ := flow_poll_of_ready hsound hwait hready
      rw [hroom, if_neg Bool.false_ne_true, hsame] at hafter hended
      rw [hafter, hended]
      exact .inr ⟨hunread, hclosed⟩
    · exact .inl ⟨i, hstays⟩
  · have hnone : ∀ d, (i, d) ∉ x.ready k := by
      intro d hentry
      have hd := LineServer.mem_clients_of_ready hentry
      rw [hheld] at hd
      cases hd
      exact hready hentry
    rcases slot_poll_of_not_ready hwait hnone with hslot | ⟨d, peer, rest, _, hfree, _⟩
    · exact .inl ⟨i, by rw [hslot, hheld]⟩
    · rw [LineServer.is_free_of_first_free hfree] at hheld
      cases hheld

/-- A connection that leaves the queue of the port in a poll gets a slot or is rejected. -/
theorem placed_poll_of_outside (hwait : k.wait = none) {c : Connection}
    (hout : c ∈ x.rejected ++ x.network.waiting) :
    c ∈ (x.poll k).rejected ++ (x.poll k).network.waiting ∨
      ∃ i, ((x.poll k).server.slot i).stream = some c := by
  have hrejected : (x.poll k).rejected = x.rejected ++ _ := congrArg _ (admitted_poll hwait).2
  rw [hrejected, (network_poll hwait).2.1]
  rcases x.admission_cases k with ⟨_, haccepted, hnone⟩ |
    ⟨d, peer, i, rest, hwaits, hfree, hserver, haccepted, hnone⟩ |
    ⟨d, rest, hwaits, _, haccepted, hone⟩
  · rw [haccepted, hnone, List.append_nil]
    exact .inl hout
  · rw [haccepted, hnone, List.append_nil, hwaits]
    rw [hwaits, List.mem_append, List.mem_cons] at hout
    rcases hout with hout | rfl | hout
    · exact .inl (List.mem_append_left _ hout)
    · have hready := not_ready_of_free (k := k) (LineServer.is_free_of_first_free hfree)
      refine .inr ⟨i, ?_⟩
      rw [slot_poll_admission hwait hready, hserver, LineServer.slot_set_slot_same]
      rfl
    · exact .inl (List.mem_append_right _ hout)
  · rw [haccepted, hone, hwaits, List.append_assoc]
    rw [hwaits] at hout
    exact .inl hout

/-- A poll loses no connection. -/
theorem placed_poll (hsound : x.Sound) (h : x.Placed) (k : Chance) : (x.poll k).Placed := by
  cases hwait : k.wait with
  | some e =>
      rw [poll_of_wait_failure hwait]
      exact h
  | none =>
      refine ⟨(x.limit_poll k).trans h.roomy, fun c hc => ?_⟩
      rw [(network_poll hwait).1] at hc
      by_cases hheld : ∃ i, (x.server.slot i).stream = some c
      · obtain ⟨i, hheld⟩ := hheld
        exact .inr (placed_poll_of_held hsound hwait hheld)
      · rcases h.placed c hc with hout | hin | ⟨hunread, hclosed⟩
        · rcases placed_poll_of_outside hwait hout with hout | hin
          · exact .inl hout
          · exact .inr (.inl hin)
        · exact absurd hin hheld
        · have hready : ∀ i, (i, c) ∉ x.ready k :=
            fun i hentry => hheld ⟨i, LineServer.mem_clients_of_ready hentry⟩
          obtain ⟨hafter, hended⟩ := flow_poll_of_not_ready hwait hready
          rw [hafter, hended]
          exact .inr (.inr ⟨hunread, hclosed⟩)

/-- Every event keeps track of every connection. -/
theorem placed_step (hsound : x.Sound) (h : x.Placed) (event : Event) : (x.step event).Placed := by
  cases event with
  | connect => exact placed_connect h
  | send c bytes =>
      refine { placed_modify h c (f := fun f => f.send bytes) ?_ with }
      intro g hclosed
      simp [Inflow.send, hclosed]
  | finish c ending =>
      refine placed_modify h c ?_
      intro g hclosed
      simp [Inflow.finish, hclosed]
  | poll k => exact placed_poll hsound h k
  | next => exact ⟨h.roomy, h.placed⟩

/-- In every session each connection is somewhere. -/
theorem placed_run (events : List Event) : (run events).Placed := by
  have hboth : (run events).Sound ∧ (run events).Placed :=
    run_induction (P := fun x => x.Sound ∧ x.Placed) ⟨sound_start, placed_start⟩
      (fun _ h event => ⟨sound_step h.1 event, placed_step h.1 h.2 event⟩) events
  exact hboth.2

/-! ## Polls, one after another -/

/-- The server polls again and again. -/
def polls (x : Session) (ks : List Chance) : Session :=
  ks.foldl poll x

/-- The first poll is made before the rest. -/
theorem polls_cons (x : Session) (k : Chance) (ks : List Chance) :
    x.polls (k :: ks) = (x.poll k).polls ks :=
  rfl

/-- Polls are made one behind the other. -/
theorem polls_append (x : Session) (ks more : List Chance) :
    x.polls (ks ++ more) = (x.polls ks).polls more :=
  List.foldl_append

/-- In each of the polls every call succeeds and the wait finds something. -/
def AllFind : Session → List Chance → Prop
  | _, [] => True
  | x, k :: ks => k.Succeeds ∧ x.Finds k ∧ (x.poll k).AllFind ks

/-- All polls find something if the first does and those behind it do. -/
theorem all_find_cons {ks : List Chance} :
    x.AllFind (k :: ks) ↔ k.Succeeds ∧ x.Finds k ∧ (x.poll k).AllFind ks :=
  Iff.rfl

/-- Polls one behind the other all find something if each of the two parts does. -/
theorem all_find_append {ks more : List Chance} :
    x.AllFind (ks ++ more) ↔ x.AllFind ks ∧ (x.polls ks).AllFind more := by
  induction ks generalizing x with
  | nil => exact ⟨fun h => ⟨trivial, h⟩, And.right⟩
  | cons k ks ih =>
      rw [List.cons_append, all_find_cons, all_find_cons, ih, polls_cons, and_assoc, and_assoc]

/-- Nothing that the server waits for is ready. -/
def Quiet (x : Session) : Prop :=
  x.network.anyReady x.server = false

/-- Polls keep what a session is. -/
theorem sound_placed_polls (hsound : x.Sound) (hplaced : x.Placed) (ks : List Chance) :
    (x.polls ks).Sound ∧ (x.polls ks).Placed := by
  induction ks generalizing x with
  | nil => exact ⟨hsound, hplaced⟩
  | cons k ks ih =>
      rw [polls_cons]
      exact ih (sound_poll hsound k) (placed_poll hsound hplaced k)

/-- The work of a session pays for every poll that finds something. -/
theorem length_polls_le {ks : List Chance} (hsound : x.Sound) (hplaced : x.Placed)
    (h : x.AllFind ks) : ks.length + (x.polls ks).work ≤ x.work := by
  induction ks generalizing x with
  | nil => exact (Nat.zero_add _).le
  | cons k ks ih =>
      obtain ⟨hk, hfinds, hrest⟩ := all_find_cons.1 h
      have hless := work_poll_lt hsound hplaced.roomy hk hfinds
      have hle := ih (sound_poll hsound k) (placed_poll hsound hplaced k) hrest
      rw [List.length_cons, polls_cons]
      omega

/-- A session that is not quiet is polled on. -/
theorem exists_quiet (hsound : x.Sound) (hplaced : x.Placed) :
    ∃ ks, x.AllFind ks ∧ (x.polls ks).Quiet := by
  induction hwork : x.work using Nat.strong_induction_on generalizing x with
  | _ n ih =>
      by_cases hquiet : x.Quiet
      · exact ⟨[], trivial, hquiet⟩
      · obtain ⟨watched, hwatched, hready⟩ : ∃ watched ∈ x.server.watched,
            (x.network.report watched).isReady = true := by
          simpa [Quiet, Loopback.anyReady] using hquiet
        have hfinds : x.Finds .smooth := ⟨watched, hwatched, rfl, hready⟩
        have hless := work_poll_lt hsound hplaced.roomy Chance.succeeds_smooth hfinds
        rw [hwork] at hless
        obtain ⟨ks, hks, hends⟩ := ih _ hless (sound_poll hsound .smooth)
          (placed_poll hsound hplaced .smooth) rfl
        refine ⟨.smooth :: ks, all_find_cons.2 ⟨Chance.succeeds_smooth, hfinds, hks⟩, ?_⟩
        rw [polls_cons]
        exact hends

/-- When nothing is ready, no connection waits, every connection that was not rejected has been read
to its end, and every slot is free or holds a connection that its client has not ended. -/
theorem settled_of_quiet (hsound : x.Sound) (hplaced : x.Placed) (hquiet : x.Quiet) :
    x.network.waiting = [] ∧
      (∀ c < x.network.flows.length, c ∈ x.rejected ∨ bytesRead (x.reads c) = x.sent c) ∧
      ∀ i, (x.server.slot i).isFree = true ∨
        ∃ c, (x.server.slot i).stream = some c ∧ (x.network.flow c).ending = .unended := by
  have hnone : ∀ watched ∈ x.server.watched, (x.network.report watched).isReady = false := by
    simpa [Quiet, Loopback.anyReady] using hquiet
  have hheld : ∀ i c, (x.server.slot i).stream = some c →
      (x.network.flow c).unread = [] ∧ (x.network.flow c).ending = .unended := by
    intro i c hc
    have hmem : Watched.client c ∈ x.server.watched :=
      List.mem_cons_of_mem _ (List.mem_map.2 ⟨(i, c), LineServer.mem_clients.2 hc, rfl⟩)
    have hreport := hnone _ hmem
    simp only [Loopback.report, Inflow.report, Report.isReady] at hreport
    cases hending : (x.network.flow c).ending <;> simp_all
  have hwaiting : x.network.waiting = [] := by
    simpa [Loopback.report, Report.isReady] using hnone .port List.mem_cons_self
  refine ⟨hwaiting, fun c hc => ?_, fun i => ?_⟩
  · have hsent := hsound.sent c
    rcases hplaced.placed c hc with hout | ⟨i, hc⟩ | ⟨hunread, _⟩
    · rw [hwaiting, List.append_nil] at hout
      exact .inl hout
    · rw [(hheld i c hc).1, List.append_nil] at hsent
      exact .inr hsent
    · rw [hunread, List.append_nil] at hsent
      exact .inr hsent
  · cases hc : (x.server.slot i).stream with
    | none => exact .inl (by rw [Slot.isFree, hc]; rfl)
    | some c => exact .inr ⟨c, rfl, (hheld i c hc).2⟩

/-- From every session, with no further events of the clients and every call succeeding: only so
many polls in a row find something ready, and however they go, polling on leaves nothing ready.
Whenever nothing is ready any more, no connection waits to be accepted. Each was then accepted into
a slot or rejected for want of one; everything that was sent on those accepted has been read, and
every slot is free unless its client has neither closed nor reset its connection. -/
theorem polls_settle (events : List Event) :
    let x := run events
    ∀ ks, x.AllFind ks →
      ks.length ≤ x.work ∧
        (∃ more, x.AllFind (ks ++ more) ∧ (x.polls (ks ++ more)).Quiet) ∧
          ((x.polls ks).Quiet →
            let y := x.polls ks
            y.network.waiting = [] ∧
              (∀ c < y.network.flows.length,
                c ∈ y.rejected ∨ bytesRead (y.reads c) = y.sent c) ∧
              ∀ i, (y.server.slot i).isFree = true ∨
                ∃ c, (y.server.slot i).stream = some c ∧
                  (y.network.flow c).ending = .unended) := by
  intro x ks hks
  obtain ⟨hsound, hplaced⟩ := sound_placed_polls (sound_run events) (placed_run events) ks
  have hle := length_polls_le (sound_run events) (placed_run events) hks
  obtain ⟨more, hmore, hquiet⟩ := exists_quiet hsound hplaced
  refine ⟨(Nat.le_add_right _ _).trans hle, ⟨more, all_find_append.2 ⟨hks, hmore⟩, ?_⟩,
    settled_of_quiet hsound hplaced⟩
  rw [polls_append]
  exact hquiet

/-- A client that sends a line and resets its connection. -/
def resetClient : List Event :=
  [.connect, .send 0 [104, 105, 10], .finish 0 .reset]

/-- The polls accept the client, read its line, fail at the reset, and find its end. -/
theorem polls_settle_of_reset_client :
    let x := run resetClient
    let ks := List.replicate 4 .smooth
    let y := x.polls ks
    x.AllFind ks ∧ y.Quiet ∧ ks.length ≤ x.work ∧ y.network.waiting = [] ∧
      bytesRead (y.reads 0) = [104, 105, 10] ∧ ∀ i, (y.server.slot i).isFree = true := by
  intro x ks y
  have hks : x.AllFind ks := by
    refine ⟨Chance.succeeds_smooth, ⟨.port, List.mem_cons_self, rfl, by decide⟩,
      Chance.succeeds_smooth, ⟨.client 0, by decide, rfl, by decide +kernel⟩,
      Chance.succeeds_smooth, ⟨.client 0, by decide +kernel, rfl, by decide +kernel⟩,
      Chance.succeeds_smooth, ⟨.client 0, by decide +kernel, rfl, by decide +kernel⟩, trivial⟩
  have hquiet : y.Quiet := by
    rw [Quiet]
    decide +kernel
  obtain ⟨hlength, -, hsettled⟩ := polls_settle resetClient ks hks
  obtain ⟨hwaiting, hread, hslots⟩ := hsettled hquiet
  refine ⟨hks, hquiet, hlength, hwaiting, ?_, fun i => ?_⟩
  · rcases hread 0 (by decide +kernel) with hrejected | hread
    · exact absurd hrejected (by decide +kernel)
    · exact hread
  · rcases hslots i with hfree | ⟨c, hheld, -⟩
    · exact hfree
    · have hnone : y.server.clients = [] := by decide +kernel
      have hmem := LineServer.mem_clients.2 hheld
      rw [hnone] at hmem
      cases hmem

end Session

end EngineLink
