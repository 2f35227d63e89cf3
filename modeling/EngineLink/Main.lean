import EngineLink.Command.Bridge
import EngineLink.Host.Console
import EngineLink.Host.Segments
import EngineLink.Host.Sockets
import EngineLink.Program.Help
import EngineLink.Program.Listener
import EngineLink.Program.Sampler
import EngineLink.Program.Snapshot
import EngineLink.Program.Version
import EngineLink.Telemetry.Intake

/-!
# The command line

Reads the command line, carries the command out with the operating system, and gives its exit
status. The commands that serve and sample repeat one turn of theirs until it says that it was
the last.
-/

namespace EngineLink.CommandLine

open Std.Internal.UV.TCP (Socket)

/-- What a command comes to: its exit status, or its failure. -/
abbrev Result := Except CommandFailure Nat

/-- The environment variables that options are read from. -/
def environment : IO (List (String × String)) := do
  let names := Invocation.commands.flatMap fun c => c.options.filterMap fun o => o.envName?
  let found ← names.mapM fun name => do
    return (← IO.getEnv name).map fun value => (name, value)
  return found.filterMap id

/-- Opens a port for a server, and tells the events of it. -/
def openPort (c : Host.Console) (number : Nat) : IO (Except CommandFailure Host.Port) := do
  let (answers, port) ← Host.Port.start number Listening.standardBacklog
  let (server, events) :=
    LineServer.start (Listening.anyAddress (Text.ofNat number)) answers
  c.log events
  match server, port with
  | .ok _, some port => return .ok port
  | .error e, _ => return .error (Listener.startFailure e)
  | .ok _, none => return .error (Exit.ofSystem "bind failed" (.ofKind .other))

/-- Repeats the turns of the listen command. -/
partial def listen (c : Host.Console) (port : Host.Port) (interrupted : Task Unit)
    (count : Option Nat) (l : Listener) : IO Result := do
  if ← IO.hasFinished interrupted then return .ok Exit.success
  let turn := l.turn count (← port.answer interrupted l.server)
  c.log (turn.notices.map ServerNotice.event)
  port.close (ServerNotice.closed turn.notices)
  for (number, message) in turn.prints do
    c.print (Output.message c.format (← Host.now) number message)
  match turn.progress.outcome? with
  | none => listen c port interrupted count turn.listener
  | some (.ok status) =>
    c.log [turn.listener.server.closingEvent]
    return .ok status
  | some (.error e) => return .error e

/-- Repeats the turns of the bridge. -/
partial def bridge (c : Host.Console) (port : Host.Port) (interrupted : Task Unit)
    (b : Bridge LoggingBus) : IO Result := do
  if ← IO.hasFinished interrupted then
    c.log [BridgeNotice.stopped.event, b.bus.finishedEvent, b.server.closingEvent]
    return .ok Exit.success
  let step := b.turn LoggingBus.bus (← port.answer interrupted b.server)
  c.log (step.notices.map BridgeNotice.event)
  port.close (ServerNotice.closed (BridgeNotice.serverNotices step.notices))
  match step.result with
  | .ok _ => bridge c port interrupted step.bridge
  | .error e => return .error (Exit.ofBridge "bridge stopped" e)

/-- Reads a telemetry stream to its end. -/
partial def readStream (intake : IO.Ref Telemetry.Intake) (socket : Socket) : IO Unit := do
  match ← Host.settle (socket.recv? 4096) with
  | .ok (some bytes) =>
    intake.modify fun i => i.feed bytes.toList
    readStream intake socket
  | .ok none => intake.modify fun i => i.close
  | .error e =>
    if e.isInterrupted then readStream intake socket else intake.modify fun i => i.fail

/-- Repeats the samples of the telemetry command. -/
partial def sample (c : Host.Console) (interrupted : Task Unit) (interval : Duration)
    (count : Option Nat) (intake : IO.Ref Telemetry.Intake) (s : Sampler) : IO Unit := do
  if ← IO.hasFinished interrupted then return
  let i ← intake.get
  let look := s.look count i.reading i.latest
  if let some (number, point) := look.print then
    c.print (Output.dataPoint c.format (← Host.now) number point)
  match look.progress with
  | .ongoing =>
    Host.sleep interval
    sample c interrupted interval count intake look.sampler
  | .counted => return
  | .ended => c.log [look.sampler.endedEvent]

/-- The telemetry command. -/
def telemetry (c : Host.Console) (interrupted : Task Unit) (r : TelemetryRequest) : IO Result := do
  match Sampler.settings r with
  | .error e => return .error e
  | .ok settings =>
    let opened ← Telemetry.Link.connect Host.network .usual settings.link
    c.log (Telemetry.LinkNotice.events opened.notices)
    match opened.result with
    | .error e => return .error (Sampler.connectFailure e)
    | .ok link =>
      let intake ← IO.mkRef Telemetry.Intake.start
      let _ ← IO.asTask (readStream intake link.telemetry) .dedicated
      let sent ← r.commands.mapM fun command => do
        let (sent, notice) ← link.send Host.write command
        c.log (Telemetry.LinkNotice.events [notice])
        return sent
      sample c interrupted settings.interval r.count intake .start
      return .ok (Sampler.statusOf sent)

/-- Carries out what is asked for. -/
def run (c : Host.Console) (r : Request) : IO Result := do
  match r with
  | .version extended =>
    c.print (Version.text extended Version.here)
    return .ok Exit.success
  | .blackboard name full =>
    let before ← Host.segments name
    let outcome := Snapshot.run before true name full c.format (← Host.now)
    Host.keepSegment name before outcome.after
    c.log outcome.events
    match outcome.result with
    | .ok text =>
      c.print text
      return .ok Exit.success
    | .error e => return .error e
  | .listen number count =>
    match ← openPort c number with
    | .error e => return .error e
    | .ok port =>
      c.log [Listener.startedEvent]
      listen c port (← Host.interruption) count .start
  | .bridge number =>
    match ← openPort c number with
    | .error e => return .error e
    | .ok port =>
      c.log [LoggingBus.listeningEvent, BridgeNotice.started.event]
      bridge c port (← Host.interruption) ⟨.empty, .unused⟩
  | .telemetry request => telemetry c (← Host.interruption) request

end EngineLink.CommandLine

open EngineLink in
/-- The program: carries out its command line. -/
def main (words : List String) : IO UInt32 := do
  match Invocation.read (← CommandLine.environment) words with
  | .error .displayVersion =>
    IO.print Version.short
    return 0
  | .error e =>
    if e.status = 0 then IO.print Help.text
    else IO.eprint ("error: " ++ e.name ++ "\n" ++ Help.text)
    return UInt32.ofNat e.status
  | .ok i =>
    let terminal ← (← IO.getStdout).isTty
    let directives := LogFilter.inForce i.logLevel (← IO.getEnv "SIMBRIDGE_LOG")
    let console : Host.Console := ⟨i.format.getD (.standard terminal), directives, i.logFormat⟩
    match ← CommandLine.run console i.request with
    | .ok status => return UInt32.ofNat status
    | .error e =>
      IO.eprintln e.line
      return UInt32.ofNat e.status
