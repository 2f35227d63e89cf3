import EngineLink.LineServer.Basic
import EngineLink.Telemetry.Link
import Std.Internal.UV.DNS
import Std.Internal.UV.TCP

/-!
# Sockets of the operating system

The calls of servers and diallers, carried out by the operating system. Nothing is decided here:
a poll is answered by waiting once and then making the calls that the server names.
-/

namespace EngineLink.Host

open Std.Internal.UV.TCP (Socket)

/-- The error number of a failed call, which some calls give with a minus sign. -/
def errorNumber (code : UInt32) : Nat :=
  code.toInt32.toInt.natAbs

/-- The failure that the runtime reports. -/
def fault : IO.Error → SystemError
  | .alreadyExists _ code _ | .otherError code _ | .resourceBusy code _
  | .resourceVanished code _ | .unsupportedOperation code _ | .hardwareFault code _
  | .unsatisfiedConstraints code _ | .illegalOperation code _ | .protocolError code _
  | .timeExpired code _ | .interrupted _ code _ | .noFileOrDirectory _ code _
  | .invalidArgument _ code _ | .permissionDenied _ code _ | .resourceExhausted _ code _
  | .inappropriateType _ code _ | .noSuchThing _ code _ => .code (errorNumber code)
  | .unexpectedEof => .ofKind .unexpectedEof
  | .userError text => .described .other text

/-- Carries out a call. -/
def attempt {α : Type} (call : IO α) : IO (Except SystemError α) := do
  try
    return .ok (← call)
  catch e =>
    return .error (fault e)

/-- Carries out a call that answers later, and waits for the answer. -/
def settle {α : Type} (call : IO (IO.Promise (Except IO.Error α))) : IO (Except SystemError α) :=
  attempt do
    match ← IO.wait (← call).result? with
    | some (.ok answer) => return answer
    | some (.error e) => throw e
    | none => throw (.userError "the call was given up")

/-- A call that was begun, or none. -/
abbrev Begun (α : Type) := IO.Ref (Option (Task (Option (Except IO.Error α))))

/-- A task that ends when a call has its answer; the call is begun if it is not yet. -/
def begin {α : Type} (begun : Begun α) (call : IO (IO.Promise (Except IO.Error α))) :
    IO (Task Unit) := do
  match ← begun.get with
  | some task => return task.map fun _ => ()
  | none =>
    let task := (← call).result?
    begun.set (some task)
    return task.map fun _ => ()

/-- A connected client of a port. -/
structure Client where
  socket : Socket
  readable : Begun Bool

/-- An open port with the clients that it has accepted, by their numbers. -/
structure Port where
  socket : Socket
  accepting : Begun Socket
  clients : IO.Ref (Array (Option Client))

/-- A socket address as text. -/
def addressText : Std.Net.SocketAddress → Address
  | .v4 a => TransportError.addressText a.addr.toString a.port.toNat
  | .v6 a => TransportError.addressText ("[" ++ a.addr.toString ++ "]") a.port.toNat

/-- The socket address that a text denotes. -/
def socketAddress? (address : Address) : Option Std.Net.SocketAddress := do
  let reversed := address.toList.reverse
  let port ← Text.readNat? 0xFFFF (reversed.takeWhile (· ≠ ':')).reverse
  let host := ((reversed.dropWhile (· ≠ ':')).drop 1).reverse
  match host with
  | '[' :: rest =>
    let ip ← Std.Net.IPv6Addr.ofString (String.ofList rest.dropLast)
    return .v6 ⟨ip, UInt16.ofNat port⟩
  | _ =>
    let ip ← Std.Net.IPv4Addr.ofString (String.ofList host)
    return .v4 ⟨ip, UInt16.ofNat port⟩

namespace Port

/-- Opens a port on every interface, and tells what each step was answered. -/
def start (number backlog : Nat) : IO (Listening.Answers × Option Port) := do
  match ← attempt Socket.new with
  | .error e => return (⟨.error e, .ok (), .ok ()⟩, none)
  | .ok socket =>
    let any := Std.Net.SocketAddress.v4 ⟨.ofParts 0 0 0 0, UInt16.ofNat number⟩
    match ← attempt (socket.bind any) with
    | .error e => return (⟨.ok (), .error e, .ok ()⟩, none)
    | .ok _ =>
      match ← attempt (socket.listen (UInt32.ofNat backlog)) with
      | .error e => return (⟨.ok (), .ok (), .error e⟩, none)
      | .ok _ =>
        let port : Port := ⟨socket, ← IO.mkRef none, ← IO.mkRef #[]⟩
        return (⟨.ok (), .ok (), .ok ()⟩, some port)

/-- The client of a number. -/
def client? (p : Port) (c : Connection) : IO (Option Client) := do
  return ((← p.clients.get)[c]?).join

/-- A task that ends when something that a server waits for is ready. -/
def await (p : Port) : Watched → IO (Task Unit)
  | .port => begin p.accepting p.socket.accept
  | .client c => do
    match ← p.client? c with
    | some client => begin client.readable client.socket.waitReadable
    | none => return .pure ()

/-- The answer to an accept that is ready. -/
def accept (p : Port) : IO (Except SystemError (Connection × Address)) := do
  let answer ← p.accepting.modifyGet fun task => (task, none)
  match answer.bind Task.get with
  | some (.ok socket) =>
    let clients ← p.clients.get
    let client : Client := ⟨socket, ← IO.mkRef none⟩
    p.clients.set (clients.push (some client))
    let peer ← attempt socket.getPeerName
    return .ok (clients.size, (peer.toOption.map addressText).getD "")
  | some (.error e) => return .error (fault e)
  | none => return .error (.code 11)

/-- Reads at most so many bytes from a client. -/
def read (p : Port) (c : Connection) (room : Nat) : IO (Except SystemError (List UInt8)) := do
  match ← p.client? c with
  | none => return .error (.code 9)
  | some client =>
    client.readable.set none
    let answer ← settle (client.socket.recv? (UInt64.ofNat room))
    return answer.map fun bytes => (bytes.map ByteArray.toList).getD []

/-- Answers one poll of a server. An interruption ends the wait. -/
def answer (p : Port) (interrupted : Task Unit) (s : LineServer) : IO PollAnswers := do
  let tasks ← s.watched.mapM p.await
  IO.waitAny (interrupted :: tasks)
  let ready ← tasks.mapM fun task => IO.hasFinished task
  if !ready.any id then
    return ⟨.error (.code 4), .error (.code 11), fun _ => .error (.code 9)⟩
  let readiness : Readiness := ⟨ready⟩
  let mut accepted := .error (.code 11)
  let mut reads : List (Connection × Except SystemError (List UInt8)) := []
  for call in s.calls readiness do
    match call with
    | .accept => accepted ← p.accept
    | .read c room => reads := (c, ← p.read c room) :: reads
  let answers := reads
  return ⟨.ok readiness, accepted, fun c => (answers.lookup c).getD (.error (.code 9))⟩

/-- Closes clients. -/
def close (p : Port) (cs : List Connection) : IO Unit :=
  p.clients.modify fun clients => cs.foldl (fun clients c => clients.setIfInBounds c none) clients

end Port

/-- Sleeps for a span of time, to the next millisecond. -/
def sleep (d : Duration) : IO Unit :=
  IO.sleep (UInt32.ofNat (min (d.seconds * 1000 + (d.nanos + 999999) / 1000000) 0xFFFFFFFF))

/-- The network that diallers use. -/
def network : Dial.Network IO Socket :=
  { resolve := fun host port => do
      match hostFault? host with
      | some e => return .error e
      | none =>
        let found ← settle (Std.Internal.UV.DNS.getAddrInfo host "" 0)
        return found.map fun addresses => List.eraseDups (addresses.toList.map fun
          | .v4 ip => addressText (.v4 ⟨ip, UInt16.ofNat port⟩)
          | .v6 ip => addressText (.v6 ⟨ip, UInt16.ofNat port⟩))
    connect := fun address =>
      match socketAddress? address with
      | none => return .error (.ofKind .invalidInput)
      | some target => do
        match ← attempt Socket.new with
        | .error e => return .error e
        | .ok socket => return (← settle (socket.connect target)).map fun _ => socket
    sleep := sleep }

/-- Writes bytes to a connection. -/
def write (socket : Socket) (bytes : List UInt8) : IO (Except SystemError Unit) :=
  settle (socket.send #[ByteArray.mk bytes.toArray])

end EngineLink.Host
