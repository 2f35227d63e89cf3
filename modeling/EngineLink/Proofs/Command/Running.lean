import EngineLink.Proofs.Command.Forwarding

/-!
# A bridge that runs

A bridge polls its server and drains the queue while a flag is set. Nothing is assumed of the
system, of the flag and of the bus, which may share a state and refuse any command. Read `Handled`
first: what a bridge does with each of its messages. What happens in a run is seen by a bus and
surroundings that keep a history, `Bus.observed` and `Surroundings.observed`, and
`Bridge.run_handles_queued` is the result.
-/

namespace EngineLink

variable {β : Type}

/-- What a bridge did. -/
structure BridgeHistory where
  /-- The polls, each with the server before it and what the system answered. -/
  polls : List (LineServer × PollAnswers)
  /-- What the bus was sent, each with its answer. -/
  sends : List (Sending × Except BridgeError Unit)

/-- The messages that a poll queues. -/
def LineServer.queuedBy (call : LineServer × PollAnswers) : List String :=
  (call.1.poll call.2).server.queue.drop call.1.queue.length

namespace BridgeHistory

/-- The messages that were queued, in order. -/
def queued (h : BridgeHistory) : List String :=
  h.polls.flatMap LineServer.queuedBy

instance : Append BridgeHistory :=
  ⟨fun h later => ⟨h.polls ++ later.polls, h.sends ++ later.sends⟩⟩

/-- Histories one after another need no brackets. -/
theorem append_assoc (h later last : BridgeHistory) : h ++ later ++ last = h ++ (later ++ last) :=
  congrArg₂ mk (List.append_assoc ..) (List.append_assoc ..)

/-- An empty history adds nothing. -/
theorem append_nil (h : BridgeHistory) : h ++ (⟨[], []⟩ : BridgeHistory) = h :=
  congrArg₂ mk (List.append_nil _) (List.append_nil _)

end BridgeHistory

/-- A bus that keeps what it was sent and what it answered. -/
def Bus.observed (port : Bus β) : Bus (β × BridgeHistory) :=
  ⟨fun b node payload =>
    let reply := port.send b.1 node payload
    ⟨reply.result, reply.events, (reply.bus, b.2 ++ ⟨[], [((node, payload), reply.result)]⟩)⟩⟩

/-- Surroundings that keep the polls. -/
def Surroundings.observed (e : Surroundings β) : Surroundings (β × BridgeHistory) where
  running b := e.running b.1
  poll b s :=
    let answered := e.poll b.1 s
    (answered.1, (answered.2, b.2 ++ ⟨[(s, answered.1)], []⟩))

/-- A notice says what became of a message. -/
def BridgeNotice.isOutcome : BridgeNotice → Bool
  | forwarded _ => true
  | skipped _ _ => true
  | _ => false

/-- What the server or the bus has to tell says nothing of what became of a message. -/
theorem BridgeNotice.filter_map_no_outcome {α : Type} {tell : α → BridgeNotice}
    (h : ∀ a, (tell a).isOutcome = false) (events : List α) :
    (events.map tell).filter isOutcome = [] := by
  rw [List.filter_eq_nil_iff]
  intro notice hmem
  obtain ⟨a, -, rfl⟩ := List.mem_map.1 hmem
  rw [h a]
  exact Bool.false_ne_true

/-- What becomes of messages, one after another: what the bus is sent with its answers, and what is
told of each message in the end. -/
inductive Handled :
    List String → List (Sending × Except BridgeError Unit) → List BridgeNotice → Prop
  | nil : Handled [] [] []
  /-- A message without a command is skipped, and nothing is sent. -/
  | malformed {message rest sends told e} (hparse : Envelope.parse message = .error e)
      (hrest : Handled rest sends told) :
      Handled (message :: rest) sends (.skipped message (.envelope e) :: told)
  /-- A command that the bus refuses is skipped. -/
  | refused {message rest sends told e fault} (hparse : Envelope.parse message = .ok e)
      (hrest : Handled rest sends told) :
      Handled (message :: rest) ((e.sending, .error fault) :: sends)
        (.skipped message fault :: told)
  | forwarded {message rest sends told e} (hparse : Envelope.parse message = .ok e)
      (hrest : Handled rest sends told) :
      Handled (message :: rest) ((e.sending, .ok ()) :: sends) (.forwarded e.node :: told)

namespace Handled

variable {messages more : List String} {sends later : List (Sending × Except BridgeError Unit)}
  {told untold : List BridgeNotice}

/-- What was handled of some messages and then of others is what was handled of both. -/
theorem append (h : Handled messages sends told) (hmore : Handled more later untold) :
    Handled (messages ++ more) (sends ++ later) (told ++ untold) := by
  induction h with
  | nil => exact hmore
  | malformed hparse _ ih => exact .malformed hparse ih
  | refused hparse _ ih => exact .refused hparse ih
  | forwarded hparse _ ih => exact .forwarded hparse ih

/-- The bus is sent the commands in the messages, whatever it answers. -/
theorem sent (h : Handled messages sends told) :
    sends.map Prod.fst = (messages.filterMap command?).map Envelope.sending := by
  induction h with
  | nil => rfl
  | malformed hparse _ ih =>
      rw [List.filterMap_cons, command?, hparse]
      exact ih
  | refused hparse _ ih =>
      rw [List.filterMap_cons, command?, hparse]
      exact congrArg (_ :: ·) ih
  | forwarded hparse _ ih =>
      rw [List.filterMap_cons, command?, hparse]
      exact congrArg (_ :: ·) ih

end Handled

/-- A poll fails with its wait, or tells whether the queue grew. -/
theorem LineServer.poll_result_cases (s : LineServer) (a : PollAnswers) :
    (∃ e, a.wait = .error e ∧ e.isInterrupted = false ∧
        (s.poll a).result = .error (.system e) ∧ (s.poll a).server = s) ∨
      (s.poll a).result = .ok (decide (s.queue.length < (s.poll a).server.queue.length)) := by
  unfold poll
  cases a.wait with
  | error e =>
      cases hsignal : e.isInterrupted with
      | true => exact .inr (by simp [hsignal])
      | false => exact .inl ⟨e, rfl, hsignal, by simp [hsignal], by simp [hsignal]⟩
  | ok r => exact .inr rfl

/-- The wait of a poll fails, and not because of a signal. -/
def WaitFails (a : PollAnswers) (fault : BridgeError) : Prop :=
  ∃ err, a.wait = .error err ∧ err.isInterrupted = false ∧ fault = .server (.system err)

/-- How a bridge ends: it would still run after so many polls, or it finds the flag cleared, or the
wait of its last poll fails. -/
def BridgeHistory.EndsWith (h : BridgeHistory) (limit : Nat) (running : Bool) :
    Option (Except BridgeError Unit) → Prop
  | none => h.polls.length = limit
  | some (.ok _) => running = false
  | some (.error fault) => ∃ call, h.polls.getLast? = some call ∧ WaitFails call.2 fault

/-- A turn in front of a history leaves how it ends. -/
theorem BridgeHistory.EndsWith.cons {h : BridgeHistory} {limit : Nat} {running : Bool}
    {result : Option (Except BridgeError Unit)} (hends : h.EndsWith limit running result)
    (call : LineServer × PollAnswers) (sends : List (Sending × Except BridgeError Unit)) :
    ((⟨[call], sends⟩ : BridgeHistory) ++ h).EndsWith (limit + 1) running result := by
  match result with
  | none => exact congrArg Nat.succ hends
  | some (.ok _) => exact hends
  | some (.error _) =>
      obtain ⟨last, hlast, hfails⟩ := hends
      refine ⟨last, ?_, hfails⟩
      show (call :: h.polls).getLast? = some last
      rw [List.getLast?_cons, hlast]
      rfl

namespace Bridge

variable {port : Bus β} {e : Surroundings β}

/-! ## Step by step -/

/-- With no message left, a drain does nothing more. -/
theorem drain_nil {b : Bridge β} (h : b.server.queue = []) : b.drain port = ⟨b, 0, []⟩ := by
  obtain ⟨⟨slots, queue⟩, bus⟩ := b
  cases h
  rfl

/-- A drain takes the oldest message, processes it, and goes on whatever became of it. -/
theorem drain_cons {b : Bridge β} {message : String} {rest : List String}
    (h : b.server.queue = message :: rest) :
    b.drain port =
      let first := process port b.bus message
      let later := drain port ⟨b.server.nextMessage.2, first.bus⟩
      match first.result with
      | .ok _ => ⟨later.bridge, later.result + 1, first.notices ++ later.notices⟩
      | .error e =>
        ⟨later.bridge, later.result, first.notices ++ .skipped message e :: later.notices⟩ := by
  simp only [drain, h, processAll, LineServer.nextMessage, List.tail_cons]
  cases (process port b.bus message).result <;> rfl

section

variable {b : Bridge β} {a : PollAnswers}

/-- A turn fails with its poll. -/
theorem turn_of_failure {fault : ServerError} (h : (b.server.poll a).result = .error fault) :
    turn port b a = ⟨⟨(b.server.poll a).server, b.bus⟩, .error (.server fault),
      (b.server.poll a).notices.map .server⟩ := by
  simp only [turn, h]

/-- If the queue did not grow, the poll is all of the turn. -/
theorem turn_of_same (h : (b.server.poll a).result = .ok false) :
    turn port b a = ⟨⟨(b.server.poll a).server, b.bus⟩, .ok (),
      (b.server.poll a).notices.map .server⟩ := by
  simp only [turn, h]

/-- If the queue grew, it is drained. -/
theorem turn_of_grown (h : (b.server.poll a).result = .ok true) :
    turn port b a =
      let drained := drain port ⟨(b.server.poll a).server, b.bus⟩
      ⟨drained.bridge, .ok (),
        (b.server.poll a).notices.map .server ++ drained.notices⟩ := by
  simp only [turn, h]

end

/-- The turn that a bridge takes if the flag is set. -/
def nextTurn (port : Bus β) (e : Surroundings β) (b : Bridge β) :
    Step β (Except BridgeError Unit) :=
  turn port ⟨b.server, (e.poll b.bus b.server).2⟩ (e.poll b.bus b.server).1

section

variable {n : Nat} {b : Bridge β}

/-- A bridge stops when it finds the flag cleared. -/
theorem turns_of_cleared (h : e.running b.bus = false) :
    turns port e (n + 1) b = ⟨b, some (.ok ()), [.stopped]⟩ := by
  simp [turns, h]

/-- A turn that fails is the last one. -/
theorem turns_of_failure (h : e.running b.bus = true) {fault : BridgeError}
    (hfails : (nextTurn port e b).result = .error fault) :
    turns port e (n + 1) b =
      ⟨(nextTurn port e b).bridge, some (.error fault), (nextTurn port e b).notices⟩ := by
  simp only [nextTurn] at hfails
  simp [turns, h, hfails, nextTurn]

/-- After any other turn the bridge goes on. -/
theorem turns_of_turn (h : e.running b.bus = true) (hgoes : (nextTurn port e b).result = .ok ()) :
    turns port e (n + 1) b =
      let later := turns port e n (nextTurn port e b).bridge
      { later with notices := (nextTurn port e b).notices ++ later.notices } := by
  simp only [nextTurn] at hgoes
  simp [turns, h, hgoes, nextTurn]

end

/-! ## Without the history -/

variable (port e)

/-- A bridge about which nothing is known yet. -/
def observed (b : Bridge β) : Bridge (β × BridgeHistory) :=
  ⟨b.server, b.bus, ⟨[], []⟩⟩

/-- A bridge without its history. -/
def bare (b : Bridge (β × BridgeHistory)) : Bridge β :=
  ⟨b.server, b.bus.1⟩

/-- What a bridge did, without its history. -/
def Step.bare {α : Type} (step : Step (β × BridgeHistory) α) : Step β α :=
  ⟨step.bridge.bare, step.result, step.notices⟩

/-- A bus that keeps a history handles a message as it would without one. -/
theorem process_observed (bus : β × BridgeHistory) (message : String) :
    let seen := process port.observed bus message
    (⟨seen.result, seen.bus.1, seen.notices⟩ : Processed β) = process port bus.1 message := by
  simp only [process, Bus.observed]
  cases Envelope.parse message with
  | error _ => rfl
  | ok e =>
      simp only
      cases (port.send bus.1 e.node e.payload).result <;> rfl

/-- A bus that keeps a history handles messages as it would without one. -/
theorem process_all_observed (messages : List String) (bus : β × BridgeHistory) :
    let seen := processAll port.observed bus messages
    (⟨seen.forwarded, seen.bus.1, seen.notices⟩ : Drained β) =
      processAll port bus.1 messages := by
  induction messages generalizing bus with
  | nil => rfl
  | cons message rest ih =>
      have hfirst := process_observed port bus message
      simp only [processAll]
      simp only at hfirst ih
      rw [← hfirst]
      simp only
      rw [← ih]
      cases (process port.observed bus message).result <;> rfl

/-- The history changes nothing that a drain does. -/
theorem bare_drain (b : Bridge (β × BridgeHistory)) :
    (b.drain port.observed).bare = b.bare.drain port := by
  have hall := process_all_observed port b.server.queue b.bus
  simp only at hall
  simp only [drain, bare, ← hall]
  rfl

/-- The history changes nothing that a turn does. -/
theorem bare_turn (b : Bridge (β × BridgeHistory)) (a : PollAnswers) :
    (turn port.observed b a).bare = turn port b.bare a := by
  cases hresult : (b.server.poll a).result with
  | error fault =>
      rw [turn_of_failure hresult, turn_of_failure (b := b.bare) hresult]
      rfl
  | ok grew =>
      cases grew with
      | false =>
          rw [turn_of_same hresult, turn_of_same (b := b.bare) hresult]
          rfl
      | true =>
          have hdrain : drain port ⟨(b.bare.server.poll a).server, b.bare.bus⟩ =
              (drain port.observed ⟨(b.server.poll a).server, b.bus⟩).bare :=
            (bare_drain port ⟨(b.server.poll a).server, b.bus⟩).symm
          rw [turn_of_grown hresult, turn_of_grown (b := b.bare) hresult, hdrain]
          rfl

/-- A turn of a bridge that keeps a history is a turn of the bridge without it. -/
theorem bare_next_turn (b : Bridge (β × BridgeHistory)) :
    (nextTurn port.observed e.observed b).bare = nextTurn port e b.bare :=
  bare_turn port _ _

/-- The history changes nothing that turns do. -/
theorem bare_turns (n : Nat) (b : Bridge (β × BridgeHistory)) :
    (turns port.observed e.observed n b).bare = turns port e n b.bare := by
  induction n generalizing b with
  | zero => rfl
  | succ n ih =>
      have hnext := bare_next_turn port e b
      cases hrunning : e.running b.bus.1 with
      | false =>
          rw [turns_of_cleared hrunning, turns_of_cleared (b := b.bare) hrunning]
          rfl
      | true =>
          cases hresult : (nextTurn port.observed e.observed b).result with
          | error fault =>
              have hbare : (nextTurn port e b.bare).result = .error fault := by
                rw [← hnext]
                exact hresult
              rw [turns_of_failure hrunning hresult, turns_of_failure hrunning hbare, ← hnext]
              rfl
          | ok _ =>
              have hbare : (nextTurn port e b.bare).result = .ok () := by
                rw [← hnext]
                exact hresult
              have hlater : turns port e n (nextTurn port.observed e.observed b).bare.bridge = _ :=
                (ih (nextTurn port.observed e.observed b).bridge).symm
              rw [turns_of_turn hrunning hresult, turns_of_turn hrunning hbare, ← hnext, hlater]
              rfl

/-! ## What becomes of the messages -/

/-- A message is handled whether it holds a command or not and whatever the bus answers, and the
result says whether the bus took its command. -/
theorem process_handles (bus : β × BridgeHistory) (message : String) :
    let first := process port.observed bus message
    ∃ sends, first.bus.2 = bus.2 ++ ⟨[], sends⟩ ∧
      match first.result with
      | .ok _ => Handled [message] sends (first.notices.filter BridgeNotice.isOutcome) ∧
          (sends.countP fun sent => sent.2.isOk) = 1
      | .error fault =>
          let told := first.notices ++ [BridgeNotice.skipped message fault]
          Handled [message] sends (told.filter BridgeNotice.isOutcome) ∧
          (sends.countP fun sent => sent.2.isOk) = 0 := by
  cases hparse : Envelope.parse message with
  | error fault =>
      simp only [process, hparse]
      exact ⟨[], (BridgeHistory.append_nil _).symm, .malformed hparse .nil, rfl⟩
  | ok command =>
      have hevents : ((port.send bus.1 command.node command.payload).events.map
          BridgeNotice.bus).filter BridgeNotice.isOutcome = [] :=
        BridgeNotice.filter_map_no_outcome (fun _ => rfl) _
      refine ⟨[(command.sending, (port.send bus.1 command.node command.payload).result)], ?_⟩
      simp only [process, hparse, Bus.observed]
      cases hreply : (port.send bus.1 command.node command.payload).result with
      | error fault =>
          refine ⟨rfl, ?_, rfl⟩
          rw [List.cons_append, List.filter_cons, List.filter_append, hevents]
          exact .refused hparse .nil
      | ok _ =>
          refine ⟨rfl, ?_, rfl⟩
          rw [List.cons_append, List.filter_cons, List.filter_append, hevents]
          exact .forwarded hparse .nil

/-- A drain leaves no message, and each is handled once and in order, which is what the history
shows. It gives the number of commands that the bus took. -/
theorem drain_handles (b : Bridge (β × BridgeHistory)) :
    let drained := b.drain port.observed
    drained.bridge.server.queue = [] ∧
      ∃ sends, drained.bridge.bus.2 = b.bus.2 ++ ⟨[], sends⟩ ∧
        Handled b.server.queue sends (drained.notices.filter BridgeNotice.isOutcome) ∧
        drained.result = sends.countP fun sent => sent.2.isOk := by
  induction hqueue : b.server.queue generalizing b with
  | nil =>
      rw [drain_nil hqueue]
      exact ⟨hqueue, [], (BridgeHistory.append_nil _).symm, .nil, rfl⟩
  | cons message rest ih =>
      obtain ⟨sends, hsends, hfirst⟩ := process_handles port b.bus message
      have hnext : b.server.nextMessage.2.queue = rest := by
        rw [LineServer.nextMessage, hqueue, List.tail_cons]
      obtain ⟨hempty, later, hlater, hrest, hcount⟩ :=
        ih ⟨b.server.nextMessage.2, (process port.observed b.bus message).bus⟩ hnext
      rw [hsends, BridgeHistory.append_assoc] at hlater
      rw [drain_cons hqueue]
      cases hresult : (process port.observed b.bus message).result with
      | ok _ =>
          simp only [hresult] at hfirst ⊢
          refine ⟨hempty, sends ++ later, hlater, ?_, ?_⟩
          · rw [List.filter_append]
            exact hfirst.1.append hrest
          · rw [List.countP_append, hfirst.2, ← hcount]
            exact Nat.add_comm _ _
      | error fault =>
          simp only [hresult] at hfirst ⊢
          refine ⟨hempty, sends ++ later, hlater, ?_, ?_⟩
          · rw [List.append_cons, List.filter_append]
            exact hfirst.1.append hrest
          · rw [List.countP_append, hfirst.2, ← hcount, Nat.zero_add]

/-- A turn that starts with no message leaves none, and those that its poll queues are handled. It
fails only with the wait. -/
theorem turn_handles {b : Bridge (β × BridgeHistory)} (hqueue : b.server.queue = [])
    (a : PollAnswers) :
    let taken := turn port.observed b a
    taken.bridge.server.queue = [] ∧
      ∃ sends, taken.bridge.bus.2 = b.bus.2 ++ ⟨[], sends⟩ ∧
        Handled (LineServer.queuedBy (b.server, a)) sends
          (taken.notices.filter BridgeNotice.isOutcome) ∧
        ∀ fault, taken.result = .error fault → WaitFails a fault := by
  have hqueued : LineServer.queuedBy (b.server, a) = (b.server.poll a).server.queue := by
    rw [LineServer.queuedBy, hqueue]
    rfl
  have htold : ((b.server.poll a).notices.map BridgeNotice.server).filter
      BridgeNotice.isOutcome = [] :=
    BridgeNotice.filter_map_no_outcome (fun _ => rfl) _
  rw [hqueued]
  rcases b.server.poll_result_cases a with ⟨err, hwait, hsignal, hresult, hserver⟩ | hresult
  · rw [turn_of_failure hresult, hserver, hqueue]
    refine ⟨hqueue, [], (BridgeHistory.append_nil _).symm, htold ▸ .nil, ?_⟩
    rintro fault hfault
    cases hfault
    exact ⟨err, hwait, hsignal, rfl⟩
  · by_cases hgrew : b.server.queue.length < (b.server.poll a).server.queue.length
    · rw [decide_eq_true hgrew] at hresult
      obtain ⟨hempty, sends, hsends, hhandled, -⟩ :=
        drain_handles port ⟨(b.server.poll a).server, b.bus⟩
      rw [turn_of_grown hresult]
      refine ⟨hempty, sends, hsends, ?_, fun _ h => nomatch h⟩
      rw [List.filter_append, htold]
      exact hhandled
    · rw [decide_eq_false hgrew] at hresult
      have hnone : (b.server.poll a).server.queue = [] := by
        rw [hqueue] at hgrew
        exact List.length_eq_zero_iff.1 (Nat.eq_zero_of_not_pos hgrew)
      rw [turn_of_same hresult, hnone]
      exact ⟨hnone, [], (BridgeHistory.append_nil _).symm, htold ▸ .nil, fun _ h => nomatch h⟩

/-- The history of a turn with no message before it. -/
theorem next_turn_handles {b : Bridge (β × BridgeHistory)} (hqueue : b.server.queue = []) :
    let taken := nextTurn port.observed e.observed b
    let call := (b.server, (e.poll b.bus.1 b.server).1)
    taken.bridge.server.queue = [] ∧
      ∃ sends, taken.bridge.bus.2 = b.bus.2 ++ ⟨[call], sends⟩ ∧
        Handled (LineServer.queuedBy call) sends
          (taken.notices.filter BridgeNotice.isOutcome) ∧
        ∀ fault, taken.result = .error fault → WaitFails call.2 fault := by
  obtain ⟨hempty, sends, hsends, hhandled, hfails⟩ :=
    turn_handles port (b := ⟨b.server, (e.observed.poll b.bus b.server).2⟩) hqueue
      (e.poll b.bus.1 b.server).1
  refine ⟨hempty, sends, ?_, hhandled, hfails⟩
  exact hsends.trans (BridgeHistory.append_assoc _ _ _)

/-- Turns that start with no message leave none, the server never polls with one, and all that its
polls queue are handled. -/
theorem turns_handle (n : Nat) {b : Bridge (β × BridgeHistory)} (hqueue : b.server.queue = []) :
    let ran := turns port.observed e.observed n b
    ran.bridge.server.queue = [] ∧
      ∃ h, ran.bridge.bus.2 = b.bus.2 ++ h ∧ (∀ call ∈ h.polls, call.1.queue = []) ∧
        Handled h.queued h.sends (ran.notices.filter BridgeNotice.isOutcome) ∧
        h.EndsWith n (e.running ran.bridge.bus.1) ran.result := by
  induction n generalizing b with
  | zero =>
      exact ⟨hqueue, ⟨[], []⟩, (BridgeHistory.append_nil _).symm, List.forall_mem_nil _, .nil, rfl⟩
  | succ n ih =>
      cases hrunning : e.running b.bus.1 with
      | false =>
          rw [turns_of_cleared hrunning]
          exact ⟨hqueue, ⟨[], []⟩, (BridgeHistory.append_nil _).symm, List.forall_mem_nil _, .nil,
            hrunning⟩
      | true =>
          obtain ⟨hempty, sends, hsends, hhandled, hfails⟩ :=
            next_turn_handles port (e := e) hqueue
          cases hresult : (nextTurn port.observed e.observed b).result with
          | error fault =>
              rw [turns_of_failure hrunning hresult]
              refine ⟨hempty, _, hsends, ?_, ?_, _, rfl, hfails fault hresult⟩
              · rw [List.forall_mem_singleton]
                exact hqueue
              · rw [BridgeHistory.queued, List.flatMap_singleton]
                exact hhandled
          | ok _ =>
              obtain ⟨hlast, h, hhistory, hidle, hrest, hends⟩ := ih hempty
              rw [hsends, BridgeHistory.append_assoc] at hhistory
              rw [turns_of_turn hrunning hresult]
              refine ⟨hlast, _, hhistory, ?_, ?_, hends.cons _ _⟩
              · exact List.forall_mem_cons.2 ⟨hqueue, hidle⟩
              · rw [List.filter_append]
                exact hhandled.append hrest

/-- The history changes nothing that a run does. -/
theorem bare_run (limit : Nat) (b : Bridge (β × BridgeHistory)) :
    (run port.observed e.observed limit b).bare = run port e limit b.bare := by
  rw [run, run, ← bare_turns]
  rfl

/-- A bridge runs that has no message. The history of the run is that of the same run. No message
waits when the flag is read, which is before every poll and at the end of the run. Every message
that a poll queued is handled once and in order: the bus is sent the commands in them, whatever it
answers. The run does not end but for a cleared flag and a failed wait. A drain of any bridge
handles every message, and gives the number of commands that the bus took. -/
theorem run_handles_queued (limit : Nat) {b : Bridge β} (hqueue : b.server.queue = []) :
    let ran := run port e limit b
    let observed := run port.observed e.observed limit b.observed
    let history := observed.bridge.bus.2
    observed.bare = ran ∧
      ((∀ call ∈ history.polls, call.1.queue = []) ∧ ran.bridge.server.queue = []) ∧
      Handled history.queued history.sends (ran.notices.filter BridgeNotice.isOutcome) ∧
      history.sends.map Prod.fst =
        (history.queued.filterMap command?).map (fun c => (c.node, Text.utf8 c.cmd ++ [0])) ∧
      history.EndsWith limit (e.running ran.bridge.bus) ran.result ∧
      ∀ d : Bridge β,
        let drained := drain port d
        let seen := drain port.observed d.observed
        let sends := seen.bridge.bus.2.sends
        seen.bare = drained ∧ drained.bridge.server.queue = [] ∧
          Handled d.server.queue sends (drained.notices.filter BridgeNotice.isOutcome) ∧
          drained.result = sends.countP fun sent => sent.2.isOk := by
  intro ran observed history
  have hbare : observed.bare = ran := bare_run port e limit b.observed
  obtain ⟨hempty, h, hhistory, hidle, hhandled, hends⟩ :=
    turns_handle port e limit (b := b.observed) hqueue
  have hwhole : history = h := hhistory
  rw [hwhole, ← hbare]
  refine ⟨rfl, ⟨hidle, hempty⟩, hhandled, hhandled.sent, hends, fun d => ?_⟩
  intro drained seen sends
  have hdrained : seen.bare = drained := bare_drain port d.observed
  obtain ⟨hleft, sent, hsent, hall, hcount⟩ := drain_handles port d.observed
  have hsends : sends = sent := congrArg BridgeHistory.sends hsent
  rw [hsends, ← hdrained]
  exact ⟨rfl, hleft, hall, hcount⟩

/-- The lines of a client: three commands, and one that holds none. -/
def shortShift : List UInt8 :=
  Envelope.wire [⟨"pump", "start"⟩] ++ Text.utf8 "garbage\n" ++
    Envelope.wire [⟨"valve", "open"⟩, ⟨"pump", "stop"⟩]

/-- A bus that takes no command for a valve. -/
def pumpsOnly : Bus Nat :=
  ⟨fun b node _ => ⟨if node = "valve" then .error (.refused node "no valves") else .ok (), [], b⟩⟩

/-- The client connects, its lines are read, a signal comes, and then the wait fails. -/
def shift : Surroundings Nat where
  running _ := true
  poll b _ :=
    let wait := match b with
      | 0 => .ok ⟨[true]⟩
      | 1 => .ok ⟨[false, true]⟩
      | 2 => .error (.ofKind .interrupted)
      | _ => .error (.code 5)
    (⟨wait, .ok (0, Loopback.clientAddress), fun _ => .ok shortShift⟩, b + 1)

/-- The bridge before the client connects. -/
def shiftBegins : Bridge Nat :=
  ⟨.empty, 0⟩

/-- A bridge whose client sends three commands before a wait fails has sent all three to the bus. -/
theorem run_handles_short_shift :
    shiftBegins.server.queue = [] ∧
      (run pumpsOnly shift 9 shiftBegins).result =
        some (.error (.server (.system (.code 5)))) ∧
      (run pumpsOnly shift 9 shiftBegins).bridge.server.queue = [] ∧
      (run pumpsOnly.observed shift.observed 9 shiftBegins.observed).bridge.bus.2.sends.map
        Prod.fst = [("pump", Text.utf8 "start\x00"), ("valve", Text.utf8 "open\x00"),
          ("pump", Text.utf8 "stop\x00")] := by
  have hqueue : shiftBegins.server.queue = [] := rfl
  have hrun := run_handles_queued pumpsOnly shift 9 hqueue
  have hfails : (run pumpsOnly shift 9 shiftBegins).result =
      some (.error (.server (.system (.code 5)))) := by decide +kernel
  refine ⟨hqueue, hfails, hrun.2.1.2, ?_⟩
  rw [hrun.2.2.2.1]
  decide +kernel

end Bridge

end EngineLink
