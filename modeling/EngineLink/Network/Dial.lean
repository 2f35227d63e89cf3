import EngineLink.Duration
import EngineLink.Log
import EngineLink.Network.Error

/-!
# Dialling with retries

An attempt resolves the host and tries its addresses in order until one connects. A failed
attempt is repeated after a wait, a bounded number of times; a host without address ends the
dialling at once.

Read `tryAddresses`, `attemptFrom` and `dial` first. The steps of an outcome are the calls of the
network and the clock and what is told of them, in order.
-/

namespace EngineLink

/-- How often and after which wait a failed attempt is repeated. -/
structure RetryPolicy where
  /-- The number of attempts after the first. -/
  maxAttempts : Nat
  /-- The time between two attempts. -/
  wait : Duration
  deriving DecidableEq

namespace RetryPolicy

/-- The largest number of attempts. -/
def attemptLimit : Nat := 0xFFFFFFFF

/-- All attempts, the first one included. -/
def totalAttempts (p : RetryPolicy) : Nat :=
  min (p.maxAttempts + 1) attemptLimit

/-- Five repetitions, five seconds apart. -/
def standard : RetryPolicy :=
  ⟨5, .ofSeconds 5⟩

end RetryPolicy

namespace Dial

/-- The network as a dialler sees it: calls in a monad, each of which may depend on all calls
before it. -/
structure Network (m : Type → Type) (Connection : Type) where
  /-- The addresses of a host. -/
  resolve : String → Nat → m (Except SystemError (List Address))
  /-- An attempt to connect to an address. -/
  connect : Address → m (Except SystemError Connection)
  sleep : Duration → m Unit

/-- One step of dialling: a call, or something to tell. -/
inductive Step
  | resolve (host : String) (port : Nat)
  | connect (address : Address)
  | sleep (wait : Duration)
  /-- The host could not be resolved. -/
  | unresolved (host : String) (e : SystemError)
  | connected (host : String) (attempt : Nat)
  | refused (host : String) (e : SystemError)
  /-- No attempt is left. -/
  | gaveUp (host : String) (attempts : Nat)
  | retrying (host : String) (attempt : Nat) (wait : Duration)
  deriving DecidableEq

/-- A call of the network or the clock. -/
def Step.isCall : Step → Bool
  | resolve .. | connect .. | sleep .. => true
  | _ => false

/-- The log event of a step that tells something, without the port and the address it is about. -/
def Step.event? : Step → Option Log.Event
  | unresolved host e =>
    some ⟨.error, "address resolution failed", [("host", host), ("error", e.message)]⟩
  | connected host attempt =>
    some ⟨.debug, "connected", [("host", host), ("attempt", Text.ofNat attempt)]⟩
  | refused host e =>
    some ⟨.warn, "could not connect, trying next address", [("host", host), ("error", e.message)]⟩
  | gaveUp host attempts =>
    some ⟨.error, "maximum number of connection attempts reached",
      [("host", host), ("attempts", Text.ofNat attempts)]⟩
  | retrying host attempt wait =>
    some ⟨.warn, "failed to connect, retrying",
      [("host", host), ("attempt", Text.ofNat attempt), ("retry_wait", wait.display)]⟩
  | _ => none

/-- What is dialled and how often. -/
structure Target where
  host : String
  port : Nat
  policy : RetryPolicy
  deriving DecidableEq

/-- How dialling went. -/
structure Outcome (Connection : Type) where
  result : Except TransportError Connection
  steps : List Step

/-- An outcome with steps in front of it. -/
def Outcome.after {Connection : Type} (steps : List Step) (o : Outcome Connection) :
    Outcome Connection :=
  { o with steps := steps ++ o.steps }

/-- How trying the addresses of one attempt went: a connection, or the last failure, which is
the one from before if there was no address. -/
structure Tried (Connection : Type) where
  result : Except (Option SystemError) Connection
  steps : List Step

variable {m : Type → Type} [Monad m] {Connection : Type}

/-- Tries addresses in order until one connects. -/
def tryAddresses (net : Network m Connection) (host : String) (attempt : Nat) :
    Option SystemError → List Address → m (Tried Connection)
  | last, [] => pure ⟨.error last, []⟩
  | _, address :: rest => do
    match ← net.connect address with
    | .ok connection => return ⟨.ok connection, [.connect address, .connected host attempt]⟩
    | .error e =>
      let later ← tryAddresses net host attempt (some e) rest
      return { later with steps := [.connect address, .refused host e] ++ later.steps }

/-- The failure that is given if no address was ever tried. -/
def noAttempt : SystemError :=
  .described .other "no connection attempt made"

/-- The failure of a host that resolves to no address. -/
def noAddress : SystemError :=
  .described .notFound "no addresses returned"

/-- The attempt with the number `attempt` and the attempts after it, of which `left` are left.
`last` is the failure of the last connect call so far. -/
def attemptFrom (net : Network m Connection) (t : Target) :
    Option SystemError → Nat → Nat → m (Outcome Connection)
  | last, attempt, left => do
    let resolve := Step.resolve t.host t.port
    match ← net.resolve t.host t.port with
    | .error e => return ⟨.error (.resolve t.host t.port e), [resolve, .unresolved t.host e]⟩
    | .ok [] => return ⟨.error (.resolve t.host t.port noAddress), [resolve]⟩
    | .ok addresses =>
      let tried ← tryAddresses net t.host attempt last addresses
      match tried.result with
      | .ok connection => return ⟨.ok connection, resolve :: tried.steps⟩
      | .error last =>
        match left with
        | 0 =>
          return ⟨.error (.exhausted t.host t.port attempt (last.getD noAttempt)),
            resolve :: tried.steps ++ [.gaveUp t.host attempt]⟩
        | left + 1 =>
          net.sleep t.policy.wait
          let later ← attemptFrom net t last (attempt + 1) left
          return later.after (resolve :: tried.steps ++
            [.retrying t.host attempt t.policy.wait, .sleep t.policy.wait])

/-- Dials a target. -/
def dial (net : Network m Connection) (t : Target) : m (Outcome Connection) :=
  attemptFrom net t none 1 (t.policy.totalAttempts - 1)

/-- The calls among steps. -/
def calls (steps : List Step) : List Step :=
  steps.filter Step.isCall

/-- The log events of steps. -/
def events (steps : List Step) : List Log.Event :=
  steps.filterMap Step.event?

end Dial

end EngineLink
