import EngineLink.Command.Bridge
import EngineLink.Proofs.Command.Wire
import EngineLink.Proofs.LineServer.Undisturbed
import Mathlib.Algebra.BigOperators.Group.Finset.Basic

/-!
# From clients to the bus

A bridge runs on a network with clients that connect, send, end their connections, and it polls
its server and drains its queue, in any order. Read `BridgeSession.step` first. If every client
sends commands as lines, the bus is sent the commands of all clients, those of each client in
order: `BridgeSession.received_of_drained`.
-/

namespace EngineLink

open Finset

/-- A command as a bus is sent it: the node and the bytes. -/
abbrev Sending := String × List UInt8

namespace Bus

variable {β : Type}

/-- A bus that keeps what it was sent, in order. -/
def recording (port : Bus β) : Bus (β × List Sending) :=
  ⟨fun b node payload =>
    let reply := port.send b.1 node payload
    ⟨reply.result, reply.events, (reply.bus, b.2 ++ [(node, payload)])⟩⟩

/-- A bus refuses no command. -/
def TakesAll (port : Bus β) : Prop :=
  ∀ b node payload, (port.send b node payload).result = .ok ()

end Bus

/-- What a bus is sent for a command. -/
def Envelope.sending (e : Envelope) : Sending :=
  (e.node, e.payload)

/-- The command that a message holds, if it holds one. -/
def command? (message : String) : Option Envelope :=
  (Envelope.parse message).toOption

/-- Something that happens to a bridge and its clients. -/
inductive BridgeEvent
  /-- A client connects. -/
  | connect
  /-- A client sends bytes. -/
  | send (c : Connection) (bytes : List UInt8)
  /-- A client closes or resets its connection. -/
  | finish (c : Connection) (ending : Ending)
  /-- The server of the bridge polls. -/
  | poll (k : Chance)
  /-- The bridge drains the queue of its server. -/
  | drain

/-- A bridge on a network, with the history of both. -/
structure BridgeSession (β : Type) where
  session : Session
  /-- The bus, and what it was sent. -/
  bus : β × List Sending
  /-- What the drains returned, in order. -/
  counts : List Nat

namespace BridgeSession

variable {β : Type} (port : Bus β)

/-- A bridge that has just started. -/
def start (bus : β) : BridgeSession β :=
  ⟨.start, (bus, []), []⟩

/-- The bridge drains the queue. -/
def drain (x : BridgeSession β) : BridgeSession β :=
  let drained := Bridge.drain port.recording ⟨x.session.server, x.bus⟩
  { session := { x.session with
      server := drained.bridge.server
      taken := x.session.taken ++ x.session.server.queue }
    bus := drained.bridge.bus
    counts := x.counts ++ [drained.result] }

/-- What an event makes of a bridge. -/
def step (x : BridgeSession β) : BridgeEvent → BridgeSession β
  | .connect => { x with session := x.session.connect }
  | .send c bytes => { x with session := x.session.send c bytes }
  | .finish c ending => { x with session := x.session.finish c ending }
  | .poll k => { x with session := x.session.poll k }
  | .drain => x.drain port

/-- What events make of a bridge that has just started. -/
def run (bus : β) (events : List BridgeEvent) : BridgeSession β :=
  events.foldl (step port) (start bus)

variable {port}

/-! ## Draining -/

/-- A bus that takes every command is sent the commands in the messages, and they are counted. -/
theorem process_all_recording (hport : port.TakesAll) (messages : List String)
    (bus : β × List Sending) :
    (Bridge.processAll port.recording bus messages).bus.2 =
        bus.2 ++ (messages.filterMap command?).map Envelope.sending ∧
      (Bridge.processAll port.recording bus messages).forwarded =
        (messages.filterMap command?).length := by
  induction messages generalizing bus with
  | nil => simp [Bridge.processAll]
  | cons message rest ih =>
      cases hparse : Envelope.parse message with
      | error e =>
          have hnone : command? message = none := by rw [command?, hparse]; rfl
          obtain ⟨hbus, hcount⟩ := ih bus
          rw [List.filterMap_cons, hnone]
          simp only [Bridge.processAll, Bridge.process, hparse]
          exact ⟨hbus, hcount⟩
      | ok e =>
          have hsome : command? message = some e := by rw [command?, hparse]; rfl
          have haccepted := hport bus.1 e.node e.payload
          obtain ⟨hbus, hcount⟩ := ih
            ((port.send bus.1 e.node e.payload).bus, bus.2 ++ [e.sending])
          rw [List.filterMap_cons, hsome]
          simp only [Bridge.processAll, Bridge.process, hparse, Bus.recording, haccepted]
          exact ⟨hbus.trans (List.append_assoc _ _ _), congrArg Nat.succ hcount⟩

/-- What holds of a bridge and its history if no read fails by itself and the bus takes every
command. -/
structure Sound (x : BridgeSession β) : Prop where
  session : x.session.Sound
  whole : x.session.Whole
  received : x.bus.2 = (x.session.taken.filterMap command?).map Envelope.sending
  counted : x.counts.sum = (x.session.taken.filterMap command?).length

variable {x : BridgeSession β}

/-- A bridge that has done nothing is sound. -/
theorem sound_start (bus : β) : (start bus).Sound where
  session := Session.sound_start
  whole := Session.whole_start
  received := rfl
  counted := rfl

/-- A drain takes the whole queue. -/
theorem sound_drain (hport : port.TakesAll) (h : x.Sound) : (x.drain port).Sound := by
  obtain ⟨hbus, hcount⟩ := process_all_recording hport x.session.server.queue x.bus
  constructor
  · refine { h.session with queue := ?_ }
    show (x.session.taken ++ x.session.server.queue) ++ [] = x.session.enqueued.map Prod.snd
    rw [List.append_nil]
    exact h.session.queue
  · exact { h.whole with }
  · show (Bridge.processAll port.recording x.bus x.session.server.queue).bus.2 =
      ((x.session.taken ++ x.session.server.queue).filterMap command?).map Envelope.sending
    rw [hbus, h.received, List.filterMap_append, List.map_append]
  · show (x.counts ++
        [(Bridge.processAll port.recording x.bus x.session.server.queue).forwarded]).sum =
      ((x.session.taken ++ x.session.server.queue).filterMap command?).length
    rw [List.sum_append, h.counted, hcount, List.filterMap_append, List.length_append,
      List.sum_singleton]

/-- Every event keeps the invariant. -/
theorem sound_step (hport : port.TakesAll) (h : x.Sound) {event : BridgeEvent}
    (hevent : ∀ k, event = .poll k → k.Undisturbed) : (x.step port event).Sound := by
  cases event with
  | connect =>
      exact { h with
        session := Session.sound_connect h.session, whole := Session.whole_connect h.whole }
  | send c bytes =>
      exact { h with
        session := Session.sound_send h.session c bytes
        whole := Session.whole_send h.whole c bytes }
  | finish c ending =>
      exact { h with
        session := Session.sound_finish h.session c ending
        whole := Session.whole_finish h.whole c ending }
  | poll k =>
      exact { h with
        session := Session.sound_poll h.session k
        whole := Session.whole_poll h.session h.whole (hevent k rfl) }
  | drain => exact sound_drain hport h

/-- Behind any events whose polls are undisturbed a bridge is sound, on a bus that takes every
command. -/
theorem sound_run (hport : port.TakesAll) (bus : β) {events : List BridgeEvent}
    (hevents : ∀ k, .poll k ∈ events → k.Undisturbed) : (run port bus events).Sound := by
  have hsteps : ∀ x : BridgeSession β, x.Sound → (events.foldl (step port) x).Sound := by
    induction events with
    | nil => exact fun x h => h
    | cons event rest ih =>
        intro x h
        refine ih (fun k hk => hevents k (List.mem_cons_of_mem _ hk)) _ (sound_step hport h ?_)
        rintro k rfl
        exact hevents k List.mem_cons_self
  exact hsteps (start bus) (sound_start bus)

/-! ## Everything read and drained -/

/-- The commands in the messages that were queued, each with the connection that completed it. -/
def commands (x : BridgeSession β) : List (Connection × Envelope) :=
  x.session.enqueued.filterMap fun entry => (command? entry.2).map (entry.1, ·)

/-- The commands of a connection are those in the messages that it contributed. -/
theorem commands_of_connection (x : BridgeSession β) (c : Connection) :
    (x.commands.filter fun entry => entry.1 = c).map Prod.snd =
      (x.session.contributed c).filterMap command? := by
  unfold commands Session.contributed
  induction x.session.enqueued with
  | nil => rfl
  | cons entry rest ih =>
      by_cases hc : entry.1 = c
      · cases hcommand : command? entry.2 <;> simp [hc, hcommand, ih]
      · cases hcommand : command? entry.2 <;> simp [hc, hcommand, ih]

/-- The commands are those in the messages that were queued, in order. -/
theorem map_snd_commands (x : BridgeSession β) :
    x.commands.map Prod.snd = (x.session.enqueued.map Prod.snd).filterMap command? := by
  unfold commands
  rw [List.map_filterMap, List.filterMap_map]
  refine List.filterMap_congr fun entry _ => ?_
  cases hcommand : command? entry.2 <;> simp [hcommand]

/-- The messages of commands hold these commands. -/
theorem filter_map_command_compact (es : List Envelope) :
    (es.map fun e => e.toJson.compact).filterMap command? = es := by
  have hback (e : Envelope) : command? e.toJson.compact = some e := by
    rw [command?, Envelope.parse_compact]
    rfl
  induction es with
  | nil => rfl
  | cons e es ih => rw [List.map_cons, List.filterMap_cons, hback, ih]

/-- A connection that was not made sent nothing. -/
theorem length_commands (h : x.Sound) : x.commands.length =
    ∑ c ∈ range x.session.network.flows.length,
      ((x.commands.filter fun entry => entry.1 = c).map Prod.snd).length := by
  have hmade : ∀ c ∈ x.commands.map Prod.fst, c ∈ range x.session.network.flows.length := by
    intro c hc
    obtain ⟨entry, hentry, rfl⟩ := List.mem_map.1 hc
    have hown : entry.2 ∈ (x.session.contributed entry.1).filterMap command? := by
      rw [← commands_of_connection]
      exact List.mem_map.2 ⟨entry, List.mem_filter.2 ⟨hentry, by simp⟩, rfl⟩
    rw [mem_range]
    refine Nat.lt_of_not_le fun hle => ?_
    rw [h.session.contributed, (h.session.outside _ (.inr hle)).1] at hown
    cases hown
  -- counted by connection, where the order of the commands does not matter
  have hcount := Multiset.sum_count_eq_card (s := range x.session.network.flows.length)
    (m := (x.commands.map Prod.fst : List Connection)) hmade
  rw [Multiset.coe_card, List.length_map] at hcount
  rw [← hcount]
  refine sum_congr rfl fun c _ => ?_
  rw [Multiset.coe_count, List.length_map, List.count, List.countP_map,
    List.countP_eq_length_filter]
  congr 1

/-- Once everything that was sent has been read and the queue is drained, a bus that takes every
command has been sent the commands of all clients, those of each client in order, and the drains
have counted all of them. -/
theorem received_of_drained (hport : port.TakesAll) (bus : β) {events : List BridgeEvent}
    (hevents : ∀ k, .poll k ∈ events → k.Undisturbed) {sent : Connection → List Envelope}
    (hshort : ∀ c, ∀ e ∈ sent c, e.line.length ≤ 255)
    (hsent : ∀ c, (run port bus events).session.sent c = Envelope.wire (sent c))
    (hread : ∀ c, ((run port bus events).session.network.flow c).unread = [])
    (hdrained : (run port bus events).session.server.queue = []) :
    ∃ received : List (Connection × Envelope),
      (run port bus events).bus.2 =
          received.map (fun entry => (entry.2.node, Text.utf8 entry.2.cmd ++ [0])) ∧
        (∀ c, (received.filter fun entry => entry.1 = c).map Prod.snd = sent c) ∧
        (run port bus events).counts.sum =
          ∑ c ∈ range (run port bus events).session.network.flows.length, (sent c).length := by
  have h := sound_run hport bus hevents
  generalize run port bus events = x at *
  have htaken : x.session.taken = x.session.enqueued.map Prod.snd := by
    rw [← h.session.queue, hdrained, List.append_nil]
  have hown (c : Connection) :
      (x.commands.filter fun entry => entry.1 = c).map Prod.snd = sent c := by
    rw [commands_of_connection, Session.contributed_of_whole h.session h.whole (hread c), hsent,
      messagesBehind, Envelope.messages_wire fun e he => Nat.lt_succ_of_le (hshort c e he),
      filter_map_command_compact]
  -- with the queue drained, the messages taken are all that were queued
  refine ⟨x.commands, ?_, hown, ?_⟩
  · rw [h.received, htaken, ← map_snd_commands, List.map_map]
    rfl
  · rw [h.counted, htaken, ← map_snd_commands, List.length_map, length_commands h]
    simp only [hown]

/-- The commands of two clients. -/
def twoClientsSent : Connection → List Envelope
  | 0 => [⟨"pump", "start"⟩, ⟨"pump", ""⟩]
  | 1 => [⟨"valve", "say \"now\"\n"⟩]
  | _ => []

/-- The commands of two clients arrive, that of one between two pieces of those of the other. -/
def twoClients : List BridgeEvent :=
  [.connect, .connect, .poll .smooth, .send 1 (Envelope.wire (twoClientsSent 1)), .poll .smooth,
    .send 0 ((Envelope.wire (twoClientsSent 0)).take 20), .poll .smooth, .poll .smooth, .drain,
    .send 0 ((Envelope.wire (twoClientsSent 0)).drop 20), .poll .smooth, .drain]

/-- Two clients send commands in pieces that take turns, and the bus takes those of each in their
order. -/
theorem received_of_two_clients :
    LoggingBus.bus.TakesAll ∧ (∀ k, .poll k ∈ twoClients → k.Undisturbed) ∧
      (∀ c, ∀ e ∈ twoClientsSent c, e.line.length ≤ 255) ∧
      (∀ c, (run LoggingBus.bus .unused twoClients).session.sent c =
        Envelope.wire (twoClientsSent c)) ∧
      (∀ c, ((run LoggingBus.bus .unused twoClients).session.network.flow c).unread = []) ∧
      (run LoggingBus.bus .unused twoClients).session.server.queue = [] ∧
      ∃ received : List (Connection × Envelope),
        (run LoggingBus.bus .unused twoClients).bus.2 =
            received.map (fun entry => (entry.2.node, Text.utf8 entry.2.cmd ++ [0])) ∧
          (∀ c, (received.filter fun entry => entry.1 = c).map Prod.snd = twoClientsSent c) ∧
          (run LoggingBus.bus .unused twoClients).counts.sum =
            ∑ c ∈ range (run LoggingBus.bus .unused twoClients).session.network.flows.length,
              (twoClientsSent c).length := by
  have hport : LoggingBus.bus.TakesAll := fun _ _ _ => rfl
  have hevents : ∀ k, .poll k ∈ twoClients → k.Undisturbed := by
    intro k hk
    simp only [twoClients, List.mem_cons, List.not_mem_nil, or_false, reduceCtorEq, false_or,
      BridgeEvent.poll.injEq, or_self] at hk
    rw [hk]
    exact Chance.undisturbed_smooth
  have hshort : ∀ c, ∀ e ∈ twoClientsSent c, e.line.length ≤ 255
    | 0 => by decide +kernel
    | 1 => by decide +kernel
    | c + 2 => fun _ h => nomatch h
  have hsent : ∀ c, (run LoggingBus.bus .unused twoClients).session.sent c =
      Envelope.wire (twoClientsSent c)
    | 0 => by decide +kernel
    | 1 => by decide +kernel
    | c + 2 => rfl
  have hread : ∀ c, ((run LoggingBus.bus .unused twoClients).session.network.flow c).unread = []
    | 0 => by decide +kernel
    | 1 => by decide +kernel
    | c + 2 => rfl
  have hdrained : (run LoggingBus.bus .unused twoClients).session.server.queue = [] := rfl
  exact ⟨hport, hevents, hshort, hsent, hread, hdrained,
    received_of_drained hport .unused hevents hshort hsent hread hdrained⟩

end BridgeSession

end EngineLink
