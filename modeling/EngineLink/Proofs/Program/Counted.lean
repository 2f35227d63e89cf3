import EngineLink.Program.Listener
import EngineLink.Program.Sampler
import EngineLink.Proofs.Command.Running

/-!
# Commands that print so many

The listen and the telemetry command may be asked for a number of prints. They look at the number
behind a print, never in front of one, so that they print at least one even if they are asked for
none: the quota of a number is `max 1 count`. Nothing is assumed of the system and of the flag. Read
`Listener.Ends` first; `prints_counted` is the result.
-/

namespace EngineLink

variable {σ : Type}

/-- Entries with their numbers, from the first number on. -/
def numbered {α : Type} (first : Nat) (entries : List α) : List (Nat × α) :=
  (List.range' first entries.length).zip entries

section

variable {α : Type}

/-- The first entry has the first number, and the rest is counted on. -/
theorem numbered_cons (first : Nat) (entry : α) (rest : List α) :
    numbered first (entry :: rest) = (first, entry) :: numbered (first + 1) rest :=
  rfl

/-- Entries behind others are counted on from them. -/
theorem numbered_append (first : Nat) (entries later : List α) :
    numbered first (entries ++ later) =
      numbered first entries ++ numbered (first + entries.length) later := by
  rw [numbered, List.length_append, ← List.range'_append_1,
    List.zip_append List.length_range', numbered, numbered]

/-- As many entries are numbered as there are. -/
theorem length_numbered (first : Nat) (entries : List α) :
    (numbered first entries).length = entries.length := by
  rw [numbered, List.length_zip, List.length_range', Nat.min_self]

end

section

variable {count printed left : Nat}

/-- The count is reached with the last print of the quota. -/
theorem reached_of_quota (hquota : max 1 count = printed + 1) :
    (some count).any (· ≤ printed + 1) = true :=
  decide_eq_true (hquota ▸ Nat.le_max_right 1 count)

/-- The count is not reached as long as the quota leaves a print. -/
theorem not_reached_of_quota (hquota : max 1 count = printed + (left + 2)) :
    (some count).any (· ≤ printed + 1) = false := by
  rw [Option.any_some, decide_eq_false_iff_not]
  omega

end

/-- Surroundings that keep the polls, each with the server before it and what the system
answered. -/
def Surroundings.recorded (e : Surroundings σ) :
    Surroundings (σ × List (LineServer × PollAnswers)) where
  running s := e.running s.1
  poll s server :=
    let answered := e.poll s.1 server
    (answered.1, (answered.2, s.2 ++ [(server, answered.1)]))

/-- Surroundings that keep the polls answer as they would without, and keep what they answered. -/
theorem Surroundings.recorded_poll (e : Surroundings σ) (s : σ)
    (past : List (LineServer × PollAnswers)) (server : LineServer) :
    e.recorded.poll (s, past) server =
      ((e.poll s server).1, ((e.poll s server).2, past ++ [(server, (e.poll s server).1)])) :=
  rfl

/-- The messages that polls queued, in order. -/
def receivedBy (polls : List (LineServer × PollAnswers)) : List String :=
  polls.flatMap LineServer.queuedBy

namespace Listener

/-- How turns of the command end, with a quota of messages. -/
inductive Ends (polls : List (LineServer × PollAnswers)) (quota limit : Nat) (running : Bool) :
    Progress → Prop
  /-- The quota is reached with the last poll, and was not with the polls before it. -/
  | counted (hfull : quota ≤ (receivedBy polls).length)
      (hbefore : (receivedBy polls.dropLast).length < quota) : Ends polls quota limit running .done
  /-- The flag is cleared. -/
  | cleared (hshort : (receivedBy polls).length < quota) (hflag : running = false) :
      Ends polls quota limit running .done
  /-- The wait of the last poll failed, and not because of a signal. -/
  | failed {call : LineServer × PollAnswers} {err : SystemError}
      (hshort : (receivedBy polls).length < quota) (hlast : polls.getLast? = some call)
      (hwait : call.2.wait = .error err) (hsignal : err.isInterrupted = false) :
      Ends polls quota limit running (.failed (.system err))
  /-- The command would poll again. -/
  | unfinished (hshort : (receivedBy polls).length < quota) (hlength : polls.length = limit) :
      Ends polls quota limit running .ongoing

/-- What a poll queued comes before what the polls behind it did. -/
theorem received_by_cons (call : LineServer × PollAnswers)
    (polls : List (LineServer × PollAnswers)) :
    receivedBy (call :: polls) = LineServer.queuedBy call ++ receivedBy polls :=
  List.flatMap_cons

/-- As many messages are received as a poll and those behind it queued. -/
theorem length_received_by_cons (call : LineServer × PollAnswers)
    (polls : List (LineServer × PollAnswers)) :
    (receivedBy (call :: polls)).length =
      (LineServer.queuedBy call).length + (receivedBy polls).length := by
  rw [received_by_cons, List.length_append]

/-- A poll in front that does not reach the quota leaves the rest of it to the others. -/
theorem Ends.cons {polls : List (LineServer × PollAnswers)} {rest limit : Nat} {running : Bool}
    {progress : Progress} (call : LineServer × PollAnswers) (hrest : 0 < rest)
    (hends : Ends polls rest limit running progress) :
    Ends (call :: polls) ((LineServer.queuedBy call).length + rest) (limit + 1) running
      progress := by
  have hlength := length_received_by_cons call
  cases hends with
  | counted hfull hbefore =>
      have hsome : polls ≠ [] := by
        rintro rfl
        exact absurd (Nat.lt_of_lt_of_le hrest hfull) (Nat.lt_irrefl 0)
      refine .counted ?_ ?_
      · rw [hlength]
        exact Nat.add_le_add_left hfull _
      · rw [List.dropLast_cons_of_ne_nil hsome, hlength]
        exact Nat.add_lt_add_left hbefore _
  | cleared hshort hflag => exact .cleared (hlength polls ▸ Nat.add_lt_add_left hshort _) hflag
  | failed hshort hlast hwait hsignal =>
      refine .failed (hlength polls ▸ Nat.add_lt_add_left hshort _) ?_ hwait hsignal
      rw [List.getLast?_cons, hlast]
      rfl
  | unfinished hshort hlimit =>
      exact .unfinished (hlength polls ▸ Nat.add_lt_add_left hshort _) (congrArg Nat.succ hlimit)

/-- A command that reaches its quota ends with success. -/
theorem Ends.outcome_of_full {polls : List (LineServer × PollAnswers)} {quota limit : Nat}
    {running : Bool} {progress : Progress} (hends : Ends polls quota limit running progress)
    (hfull : quota ≤ (receivedBy polls).length) :
    progress.outcome? = some (.ok Exit.success) := by
  cases hends with
  | counted | cleared => rfl
  | failed hshort | unfinished hshort => exact absurd hfull (Nat.not_le_of_lt hshort)

/-! ## One turn -/

section

variable {count printed left : Nat}

/-- A command that has some messages left to its quota prints no more than those, and is done if
there are as many. -/
theorem take_counted (hquota : max 1 count = printed + (left + 1)) (queue : List String) :
    take (some count) printed queue =
      ⟨numbered (printed + 1) (queue.take (left + 1)), queue.drop (left + 1),
        decide (left + 1 ≤ queue.length)⟩ := by
  induction queue generalizing printed left with
  | nil => rfl
  | cons message rest ih =>
      cases left with
      | zero =>
          have hone : decide (0 + 1 ≤ (message :: rest).length) = true :=
            decide_eq_true (Nat.le_add_left 1 rest.length)
          rw [take, if_pos (reached_of_quota hquota), hone]
          rfl
      | succ left =>
          have hnext : max 1 count = printed + 1 + (left + 1) := by omega
          rw [take, not_reached_of_quota hquota, if_neg Bool.false_ne_true, ih hnext,
            List.take_succ_cons, List.drop_succ_cons, List.length_cons, numbered_cons]
          simp only [Nat.add_le_add_iff_right]

variable {l : Listener} {a : PollAnswers}

/-- The messages that a poll queues behind an empty queue are all that wait after it. -/
theorem queued_by_of_empty (hqueue : l.server.queue = []) :
    LineServer.queuedBy (l.server, a) = (l.server.poll a).server.queue := by
  show (l.server.poll a).server.queue.drop l.server.queue.length = _
  rw [hqueue]
  rfl

/-- A turn that starts with no message takes what its poll queues, be it nothing. -/
theorem turn_of_polled (count : Option Nat) (hqueue : l.server.queue = [])
    (hresult : (l.server.poll a).result =
      .ok (decide (l.server.queue.length < (l.server.poll a).server.queue.length))) :
    l.turn count a =
      let polled := l.server.poll a
      let taken := take count l.printed polled.server.queue
      ⟨⟨{ polled.server with queue := taken.left }, l.printed + taken.prints.length⟩,
        taken.prints, if taken.reached then .done else .ongoing, polled.notices⟩ := by
  rw [hqueue] at hresult
  simp only [turn, hresult]
  generalize (l.server.poll a).server = after
  obtain ⟨slots, queue⟩ := after
  cases queue with
  | nil => rfl
  | cons message rest => rfl

/-- A turn that starts with no message prints what its poll queues, up to the quota. If that is
less, no message is left and the command goes on, unless the wait failed; if the quota is reached
the command is done. -/
theorem turn_counted (hquota : max 1 count = l.printed + (left + 1)) (hqueue : l.server.queue = [])
    (a : PollAnswers) :
    let first := l.turn (some count) a
    let queued := LineServer.queuedBy (l.server, a)
    first.prints = numbered (l.printed + 1) (queued.take (left + 1)) ∧
      ((left + 1 ≤ queued.length ∧ first.progress = .done) ∨
        (queued.length < left + 1 ∧ first.progress = .ongoing ∧ first.listener.server.queue = [] ∧
          first.listener.printed = l.printed + queued.length) ∨
        ∃ err, queued = [] ∧ first.progress = .failed (.system err) ∧ a.wait = .error err ∧
          err.isInterrupted = false) := by
  intro first queued
  have hqueued : queued = (l.server.poll a).server.queue := queued_by_of_empty hqueue
  rcases l.server.poll_result_cases a with ⟨err, hwait, hsignal, hresult, hserver⟩ | hresult
  · have hnone : queued = [] := by rw [hqueued, hserver, hqueue]
    have hfirst : first = ⟨⟨(l.server.poll a).server, l.printed⟩, [], .failed (.system err),
        (l.server.poll a).notices⟩ := by
      simp only [first, turn, hresult]
    rw [hfirst, hnone]
    exact ⟨rfl, .inr (.inr ⟨err, rfl, rfl, hwait, hsignal⟩)⟩
  · have hfirst : first = _ := turn_of_polled (some count) hqueue hresult
    rw [hfirst]
    simp only [← hqueued, take_counted hquota, length_numbered]
    refine ⟨trivial, ?_⟩
    by_cases hfull : left + 1 ≤ queued.length
    · rw [decide_eq_true hfull]
      exact .inl ⟨hfull, rfl⟩
    · have hshort : queued.length < left + 1 := Nat.lt_of_not_le hfull
      rw [decide_eq_false hfull, List.take_of_length_le hshort.le,
        List.drop_eq_nil_of_le hshort.le]
      exact .inr (.inl ⟨hshort, rfl, rfl, rfl⟩)

end

/-! ## Turns -/

section

variable {e : Surroundings σ} {s : σ} {l : Listener}

/-- A command stops when it finds the flag cleared. -/
theorem turns_of_cleared (count : Option Nat) (n : Nat) (h : e.running s = false) :
    turns e count (n + 1) s l = ⟨⟨l, [], .done, []⟩, s⟩ := by
  rw [turns, h, if_neg Bool.false_ne_true]

section

variable (count : Option Nat) (n : Nat) (h : e.running s = true)

include h

/-- A turn that is the last one is all that a command does. -/
theorem turns_of_last (hlast : (l.turn count (e.poll s l.server).1).progress ≠ .ongoing) :
    turns e count (n + 1) s l =
      ⟨l.turn count (e.poll s l.server).1, (e.poll s l.server).2⟩ := by
  rw [turns, if_pos h]
  exact if_neg hlast

/-- After any other turn a command goes on. -/
theorem turns_of_ongoing (hgoes : (l.turn count (e.poll s l.server).1).progress = .ongoing) :
    turns e count (n + 1) s l =
      let first := l.turn count (e.poll s l.server).1
      let later := turns e count n (e.poll s l.server).2 first.listener
      { later with
        prints := first.prints ++ later.prints
        notices := first.notices ++ later.notices } := by
  rw [turns, if_pos h]
  exact if_pos hgoes

end

/-- Keeping the polls changes nothing that turns do. -/
theorem turns_recorded (e : Surroundings σ) (count : Option Nat) (n : Nat) (s : σ)
    (past : List (LineServer × PollAnswers)) (l : Listener) :
    let seen := turns e.recorded count n (s, past) l
    (⟨seen.toTurn, seen.outside.1⟩ : Ran σ) = turns e count n s l := by
  induction n generalizing s past l with
  | zero => rfl
  | succ n ih =>
      cases hrunning : e.running s with
      | false =>
          rw [turns_of_cleared count n hrunning,
            turns_of_cleared (e := e.recorded) (s := (s, past)) count n hrunning]
      | true =>
          by_cases hgoes : (l.turn count (e.poll s l.server).1).progress = .ongoing
          · rw [turns_of_ongoing count n hrunning hgoes,
              turns_of_ongoing (e := e.recorded) (s := (s, past)) count n hrunning hgoes]
            dsimp only
            rw [← ih _ (past ++ [(l.server, (e.poll s l.server).1)])]
            rfl
          · rw [turns_of_last count n hrunning hgoes,
              turns_of_last (e := e.recorded) (s := (s, past)) count n hrunning hgoes]
            rfl

/-- Turns that start with no message print the messages that their polls queue, up to what is left
of the quota. -/
theorem turns_counted (e : Surroundings σ) {count left : Nat} (n : Nat) (s : σ)
    (past : List (LineServer × PollAnswers)) {l : Listener}
    (hquota : max 1 count = l.printed + (left + 1)) (hqueue : l.server.queue = []) :
    let ran := turns e.recorded (some count) n (s, past) l
    ∃ polls, ran.outside.2 = past ++ polls ∧
      ran.prints = numbered (l.printed + 1) ((receivedBy polls).take (left + 1)) ∧
      Ends polls (left + 1) n (e.running ran.outside.1) ran.progress := by
  induction n generalizing s past l left with
  | zero => exact ⟨[], (List.append_nil past).symm, rfl, .unfinished (Nat.succ_pos left) rfl⟩
  | succ n ih =>
      cases hrunning : e.running s with
      | false =>
          rw [turns_of_cleared (e := e.recorded) (s := (s, past)) (some count) n hrunning]
          exact ⟨[], (List.append_nil past).symm, rfl, .cleared (Nat.succ_pos left) hrunning⟩
      | true =>
          have hlast := turns_of_last (e := e.recorded) (s := (s, past)) (l := l) (some count) n
            hrunning
          have hmore := turns_of_ongoing (e := e.recorded) (s := (s, past)) (l := l) (some count) n
            hrunning
          obtain ⟨hprints, hturn⟩ := turn_counted hquota hqueue (e.poll s l.server).1
          simp only [Surroundings.recorded_poll] at hlast hmore
          generalize l.turn (some count) (e.poll s l.server).1 = first at hprints hturn hlast hmore
          generalize hcall : (l.server, (e.poll s l.server).1) = call at hprints hturn hlast hmore
          have hone : receivedBy [call] = LineServer.queuedBy call := List.flatMap_singleton ..
          rcases hturn with ⟨hfull, hdone⟩ | ⟨hshort, hgoes, hempty, hprinted⟩ |
              ⟨err, hnone, hfails, hwait, hsignal⟩
          · rw [hlast (by rw [hdone]; exact nofun)]
            refine ⟨[call], rfl, hone ▸ hprints, ?_⟩
            rw [hdone]
            exact .counted (hone ▸ hfull) (Nat.succ_pos left)
          · -- the other polls share what this one leaves of the quota
            have hleft : left + 1 = (LineServer.queuedBy call).length +
                (left - (LineServer.queuedBy call).length + 1) := by omega
            have hnext : max 1 count = first.listener.printed +
                (left - (LineServer.queuedBy call).length + 1) := by
              rw [hprinted, Nat.add_assoc, ← hleft, hquota]
            obtain ⟨polls, hpolls, hlater, hends⟩ :=
              ih (e.poll s l.server).2 (past ++ [call]) hnext hempty
            rw [hmore hgoes]
            refine ⟨call :: polls, ?_, ?_, ?_⟩
            · exact hpolls.trans (List.append_assoc ..)
            · show first.prints ++ _ = _
              rw [hprints, hlater, hprinted, List.take_of_length_le hshort.le, received_by_cons,
                List.take_append, List.take_of_length_le hshort.le, numbered_append,
                Nat.sub_add_comm (Nat.le_of_lt_succ hshort), Nat.add_right_comm]
            · rw [hleft]
              exact hends.cons call (Nat.succ_pos _)
          · rw [hlast (by rw [hfails]; exact nofun)]
            refine ⟨[call], rfl, hone ▸ hprints, ?_⟩
            rw [hfails]
            refine .failed ?_ rfl (hcall ▸ hwait) hsignal
            rw [hone, hnone]
            exact Nat.succ_pos left

end

end Listener

namespace Sampler

/-! ## Samples -/

variable {count left : Nat} {s : Sampler}

/-- A sample is not printed and changes nothing, or it is printed with the next number, and the
count is looked at. -/
theorem look_cases (s : Sampler) (reading : Bool) (p : Telemetry.DataPoint) :
    (∀ count, s.look count reading p = ⟨s, none, if reading then .ongoing else .ended⟩) ∨
      ∀ count, s.look count reading p = ⟨⟨s.printed + 1, some p⟩, some (s.printed + 1, p),
        if count.any (· ≤ s.printed + 1) then .counted
        else if reading then .ongoing else .ended⟩ := by
  by_cases hnew : (!p.isEmpty && s.last != some p) = true
  · refine .inr fun count => ?_
    rw [look, if_pos hnew]
  · refine .inl fun count => ?_
    rw [look, if_neg hnew]

/-- With some prints left to its quota a command prints the first of what it would print without a
count. -/
theorem looks_counted (samples : List (Bool × Telemetry.DataPoint))
    (hquota : max 1 count = s.printed + (left + 1)) :
    looks (some count) s samples = (looks none s samples).take (left + 1) := by
  induction samples generalizing s left with
  | nil => rfl
  | cons sample rest ih =>
      obtain ⟨reading, p⟩ := sample
      rcases look_cases s reading p with hold | hnew
      · simp only [looks, hold, Option.toList_none, List.nil_append]
        cases reading with
        | true => exact ih hquota
        | false => rfl
      · simp only [looks, hnew, Option.toList_some, List.singleton_append, List.take_succ_cons]
        refine congrArg _ ?_
        cases left with
        | zero => rw [reached_of_quota hquota, if_pos rfl, List.take_zero]
        | succ left =>
            rw [not_reached_of_quota hquota, if_neg Bool.false_ne_true]
            cases reading with
            | true => exact ih (hquota.trans (by dsimp only; omega))
            | false => rfl

/-- What is printed is numbered without a gap. -/
theorem looks_numbered (count : Option Nat) (s : Sampler)
    (samples : List (Bool × Telemetry.DataPoint)) :
    (looks count s samples).map Prod.fst =
      List.range' (s.printed + 1) (looks count s samples).length := by
  induction samples generalizing s with
  | nil => rfl
  | cons sample rest ih =>
      obtain ⟨reading, p⟩ := sample
      rcases look_cases s reading p with hold | hnew
      · simp only [looks, hold, Option.toList_none, List.nil_append]
        cases reading with
        | true => exact ih s
        | false => rfl
      · simp only [looks, hnew, Option.toList_some, List.singleton_append, List.map_cons,
          List.length_cons, List.range'_succ]
        refine congrArg _ ?_
        split
        · exact ih _
        · rfl

end Sampler

/-- A quota allows more than its count only for a count of zero, and then for a first entry. -/
theorem length_take_quota_le_iff {α : Type} (count : Nat) (entries : List α) :
    (entries.take (max 1 count)).length ≤ count ↔ 1 ≤ count ∨ entries = [] := by
  rw [List.length_take, ← List.length_eq_zero_iff]
  omega

/-- The listen command prints the messages that it receives, numbered from one on, up to its quota
of one or the count. It is done with the poll that reaches the quota, and before that it ends only
when the flag is cleared or the wait fails. The telemetry command prints the first of the data
points that it would print without a count, up to the same quota. So the count is exceeded only by
the first print of a command that was asked for none. -/
theorem prints_counted (e : Surroundings σ) (count limit : Nat) (s : σ)
    (samples : List (Bool × Telemetry.DataPoint)) :
    let quota := max 1 count
    let ran := Listener.turns e (some count) limit s .start
    let recorded := Listener.turns e.recorded (some count) limit (s, []) .start
    let polls := recorded.outside.2
    let received := receivedBy polls
    let points := Sampler.looks none .start samples
    let shown := Sampler.looks (some count) .start samples
    (⟨recorded.toTurn, recorded.outside.1⟩ : Listener.Ran σ) = ran ∧
      ran.prints = numbered 1 (received.take quota) ∧
      Listener.Ends polls quota limit (e.running ran.outside) ran.progress ∧
      (quota ≤ received.length → ran.progress.outcome? = some (.ok Exit.success)) ∧
      (ran.prints.length ≤ count ↔ 1 ≤ count ∨ received = []) ∧
      shown = points.take quota ∧
      shown.map Prod.fst = List.range' 1 shown.length ∧
      (shown.length ≤ count ↔ 1 ≤ count ∨ points = []) := by
  intro quota ran recorded polls received points shown
  have hquota : quota = 0 + (quota - 1 + 1) := by omega
  have hall : quota - 1 + 1 = quota := by omega
  obtain ⟨kept, hkept, hprints, hends⟩ :=
    Listener.turns_counted e limit s [] (l := .start) hquota rfl
  have hran : (⟨recorded.toTurn, recorded.outside.1⟩ : Listener.Ran σ) = ran :=
    Listener.turns_recorded e (some count) limit s [] .start
  have hpolls : kept = polls := hkept.symm
  rw [hall, hpolls] at hprints hends
  have hshown : shown = points.take quota := by
    rw [← hall]
    exact Sampler.looks_counted samples hquota
  refine ⟨hran, ?_, ?_, ?_, ?_, hshown, ?_, ?_⟩
  · rw [← hran]
    exact hprints
  · rw [← hran]
    exact hends
  · intro hfull
    rw [← hran]
    exact hends.outcome_of_full hfull
  · rw [← hran]
    show recorded.prints.length ≤ count ↔ _
    rw [hprints, length_numbered]
    exact length_take_quota_le_iff count received
  · exact Sampler.looks_numbered (some count) .start samples
  · rw [hshown]
    exact length_take_quota_le_iff count points

/-- A client connects, and a line of it is read. -/
def oneLine : Surroundings Nat where
  running _ := true
  poll polled _ :=
    (⟨.ok ⟨[polled = 0, polled = 1]⟩, .ok (0, Loopback.clientAddress),
      fun _ => .ok (Text.utf8 "x\n")⟩, polled + 1)

/-- Commands that are asked for no print print one. -/
theorem prints_one_of_none :
    (Listener.turns oneLine (some 0) 2 0 .start).prints = [(1, "x")] ∧
      (Sampler.looks (some 0) .start [(true, .ofLines ["A 1"])]).length = 1 := by
  decide +kernel

end EngineLink
