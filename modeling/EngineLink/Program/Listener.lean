import EngineLink.LineServer.Surroundings
import EngineLink.Program.Exit

/-!
# The listen command

Polls a server and prints every message with its number, until the flag is cleared, the wait
fails or as many messages as asked for are printed.

Read `Listener.take` and `Listener.turn` first.
-/

namespace EngineLink

/-- The listen command between two polls. -/
structure Listener where
  server : LineServer
  /-- How many messages were printed. -/
  printed : Nat
  deriving DecidableEq

namespace Listener

/-- A listener that has printed nothing. -/
def start : Listener :=
  ⟨.empty, 0⟩

/-- What is printed of a queue: messages with their numbers, and what is left of the queue. -/
structure Taken where
  prints : List (Nat × String)
  left : List String
  /-- As many messages as asked for are printed. -/
  reached : Bool
  deriving DecidableEq

/-- Prints messages off a queue behind the `printed` ones before. The count is looked at after
each of them. -/
def take (count : Option Nat) (printed : Nat) : List String → Taken
  | [] => ⟨[], [], false⟩
  | message :: rest =>
    let number := printed + 1
    if count.any (· ≤ number) then ⟨[(number, message)], rest, true⟩
    else
      let later := take count number rest
      { later with prints := (number, message) :: later.prints }

/-- Whether the command goes on. -/
inductive Progress
  | ongoing
  /-- As many messages as asked for are printed, or the flag is cleared. -/
  | done
  | failed (e : ServerError)
  deriving DecidableEq

/-- What one turn of the command gave. -/
structure Turn where
  listener : Listener
  prints : List (Nat × String)
  progress : Progress
  notices : List ServerNotice

/-- Polls once, and prints the queue if it grew. -/
def turn (count : Option Nat) (l : Listener) (a : PollAnswers) : Turn :=
  let polled := l.server.poll a
  let l := { l with server := polled.server }
  match polled.result with
  | .error e => ⟨l, [], .failed e, polled.notices⟩
  | .ok false => ⟨l, [], .ongoing, polled.notices⟩
  | .ok true =>
    let taken := take count l.printed polled.server.queue
    ⟨⟨{ polled.server with queue := taken.left }, l.printed + taken.prints.length⟩, taken.prints,
      if taken.reached then .done else .ongoing, polled.notices⟩

/-- What turns of the command gave, with what surrounds it after them. -/
structure Ran (σ : Type) extends Turn where
  outside : σ

/-- Takes turns while the flag is set, at most so many. The progress is ongoing if the command
would take another one. -/
def turns {σ : Type} (e : Surroundings σ) (count : Option Nat) : Nat → σ → Listener → Ran σ
  | 0, s, l => ⟨⟨l, [], .ongoing, []⟩, s⟩
  | n + 1, s, l =>
    if e.running s then
      let answered := e.poll s l.server
      let first := l.turn count answered.1
      if first.progress = .ongoing then
        let later := turns e count n answered.2 first.listener
        { later with
          prints := first.prints ++ later.prints
          notices := first.notices ++ later.notices }
      else ⟨first, answered.2⟩
    else ⟨⟨l, [], .done, []⟩, s⟩

/-- The failure of a command that cannot open its port. -/
def startFailure (e : ServerError) : CommandFailure :=
  Exit.ofServer "bind failed" e

/-- The failure of a command whose wait fails. -/
def waitFailure (e : ServerError) : CommandFailure :=
  Exit.ofServer "readiness wait failed" e

/-- What a command comes to, if it is over. -/
def Progress.outcome? : Progress → Option (Except CommandFailure Nat)
  | ongoing => none
  | done => some (.ok Exit.success)
  | failed e => some (.error (waitFailure e))

/-- The log event of a listening command, without its port. -/
def startedEvent : Log.Event :=
  ⟨.info, "listening for line-delimited messages", []⟩

end Listener

end EngineLink
