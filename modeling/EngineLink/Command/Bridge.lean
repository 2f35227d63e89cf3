import EngineLink.Command.Bus
import EngineLink.LineServer.Surroundings

/-!
# The bridge from clients to the bus

A bridge takes the messages of a server and sends the commands in them to a bus. A message that
holds no command, and a command that the bus refuses, are told and skipped.

Read `Bridge.process`, `Bridge.drain` and `Bridge.turn` first. `Bridge.run` repeats turns while
a flag is set, which is read before each of them.
-/

namespace EngineLink

/-- What a bridge has to tell. -/
inductive BridgeNotice
  | started
  | stopped
  | server (n : ServerNotice)
  /-- A message holds this command. -/
  | received (e : Envelope)
  | bus (event : Log.Event)
  | forwarded (node : String)
  /-- A message was skipped. -/
  | skipped (message : String) (e : BridgeError)
  deriving DecidableEq

namespace BridgeNotice

/-- The log event of a notice. -/
def event : BridgeNotice → Log.Event
  | started => ⟨.info, "command bridge running", []⟩
  | stopped => ⟨.info, "command bridge stopped", []⟩
  | server n => n.event
  | received e =>
    ⟨.info, "received new message for command bus", [("node", e.node), ("cmd", e.cmd)]⟩
  | bus event => event
  | forwarded node => ⟨.debug, "forwarded command", [("node", node)]⟩
  | skipped message e@(.envelope _) =>
    ⟨.error, "could not interpret message", [("msg", message), ("error", e.message)]⟩
  | skipped _ e => ⟨.error, "unable to forward message", [("error", e.message)]⟩

/-- The notices of the server among those of a bridge. -/
def serverNotices (notices : List BridgeNotice) : List ServerNotice :=
  notices.filterMap fun
    | server n => some n
    | _ => none

end BridgeNotice

/-- A server with the bus to which its messages go. -/
structure Bridge (β : Type) where
  server : LineServer
  bus : β

namespace Bridge

variable {β : Type}

/-- What processing a message gave. -/
structure Processed (β : Type) where
  result : Except BridgeError Unit
  bus : β
  notices : List BridgeNotice

/-- Sends the command of a message to the bus. -/
def process (port : Bus β) (bus : β) (message : String) : Processed β :=
  match Envelope.parse message with
  | .error e => ⟨.error (.envelope e), bus, []⟩
  | .ok e =>
    let reply := port.send bus e.node e.payload
    let told := .received e :: reply.events.map .bus
    match reply.result with
    | .error fault => ⟨.error fault, reply.bus, told⟩
    | .ok _ => ⟨.ok (), reply.bus, told ++ [.forwarded e.node]⟩

/-- What processing several messages gave. -/
structure Drained (β : Type) where
  /-- How many commands the bus took. -/
  forwarded : Nat
  bus : β
  notices : List BridgeNotice

/-- Processes messages one after another. -/
def processAll (port : Bus β) (bus : β) : List String → Drained β
  | [] => ⟨0, bus, []⟩
  | message :: rest =>
    let first := process port bus message
    let later := processAll port first.bus rest
    match first.result with
    | .ok _ => ⟨later.forwarded + 1, later.bus, first.notices ++ later.notices⟩
    | .error e =>
      ⟨later.forwarded, later.bus, first.notices ++ .skipped message e :: later.notices⟩

/-- What a bridge did, and the bridge after it. -/
structure Step (β α : Type) where
  bridge : Bridge β
  result : α
  notices : List BridgeNotice

/-- Processes every queued message. Gives the number of commands that the bus took. -/
def drain (port : Bus β) (b : Bridge β) : Step β Nat :=
  let drained := processAll port b.bus b.server.queue
  ⟨⟨{ b.server with queue := [] }, drained.bus⟩, drained.forwarded, drained.notices⟩

/-- Polls the server once, and drains the queue if it grew. -/
def turn (port : Bus β) (b : Bridge β) (a : PollAnswers) : Step β (Except BridgeError Unit) :=
  let polled := b.server.poll a
  let told := polled.notices.map .server
  let b := { b with server := polled.server }
  match polled.result with
  | .error e => ⟨b, .error (.server e), told⟩
  | .ok false => ⟨b, .ok (), told⟩
  | .ok true =>
    let drained := b.drain port
    ⟨drained.bridge, .ok (), told ++ drained.notices⟩

/-- Takes turns while the flag is set, at most so many. Gives nothing if the bridge would still
run. The bus is part of the surroundings, so a command may clear the flag. -/
def turns (port : Bus β) (e : Surroundings β) :
    Nat → Bridge β → Step β (Option (Except BridgeError Unit))
  | 0, b => ⟨b, none, []⟩
  | n + 1, b =>
    if e.running b.bus then
      let (answers, bus) := e.poll b.bus b.server
      let step := turn port { b with bus := bus } answers
      match step.result with
      | .error fault => ⟨step.bridge, some (.error fault), step.notices⟩
      | .ok _ =>
        let later := turns port e n step.bridge
        { later with notices := step.notices ++ later.notices }
    else ⟨b, some (.ok ()), [.stopped]⟩

/-- Runs until the flag is cleared or a wait fails, for at most so many turns. -/
def run (port : Bus β) (e : Surroundings β) (limit : Nat) (b : Bridge β) :
    Step β (Option (Except BridgeError Unit)) :=
  let ran := turns port e limit b
  { ran with notices := .started :: ran.notices }

end Bridge

end EngineLink
