import EngineLink.Telemetry.Config
import EngineLink.Telemetry.Error
import EngineLink.Text.Utf8

/-!
# The link to the engine

A link has a telemetry stream and perhaps a command channel. The command channel is dialled
first, and a link without one is still a link; without a telemetry stream, or where its reader
cannot be started, there is none.

Read `Link.connect` and `Link.send` first.
-/

namespace EngineLink.Telemetry

/-- What a link has to tell. -/
inductive LinkNotice
  | dial (step : Dial.Step)
  | commandConnected
  | commandUnavailable (e : TransportError)
  | telemetryConnected
  | telemetryFailed (e : TransportError)
  | sent (message : String)
  /-- There is no command channel. -/
  | unsendable (message : String)
  | sendFailed (message : String) (e : SystemError)
  /-- The reader of the stream has come to its end. -/
  | joined
  deriving DecidableEq

namespace LinkNotice

/-- The log event of a notice that has one, without the port of the command channel. -/
def event? : LinkNotice → Option Log.Event
  | dial step => step.event?
  | commandConnected => some ⟨.info, "connected command channel", []⟩
  | commandUnavailable e =>
    some ⟨.error, "command channel unavailable, commands will be dropped", [("error", e.message)]⟩
  | telemetryConnected => some ⟨.info, "connected telemetry stream", []⟩
  | telemetryFailed e => some ⟨.error, "telemetry connection failed", [("error", e.message)]⟩
  | sent message => some ⟨.debug, "sent command", [("message", message)]⟩
  | unsendable message =>
    some ⟨.error, "not connected to command port, not sending command", [("message", message)]⟩
  | sendFailed message e =>
    some ⟨.error, "failed to send command", [("message", message), ("error", e.message)]⟩
  | joined => some ⟨.debug, "telemetry reader joined", []⟩

/-- The log events of notices. -/
def events (notices : List LinkNotice) : List Log.Event :=
  notices.filterMap event?

end LinkNotice

/-- A connected link. -/
structure Link (Connection : Type) where
  config : LinkConfig
  telemetry : Connection
  /-- The command channel, if there is one. -/
  command : Option Connection

namespace Link

variable {m : Type → Type} [Monad m] {Connection : Type}

/-- What dialling a link gave. -/
structure Opened (Connection : Type) where
  result : Except ProviderError (Link Connection)
  notices : List LinkNotice

/-- What the system answers when the reader of a telemetry stream is started; nothing where a call
does its work. -/
structure Starting where
  /-- To giving the reader a stream of its own. -/
  share : Option SystemError
  /-- To starting the thread of the reader. -/
  spawn : Option SystemError

/-- The answers of a system on which readers start. -/
def Starting.usual : Starting :=
  ⟨none, none⟩

/-- Why no reader is started, if so: its stream comes before its thread. -/
def Starting.failure? (a : Starting) : Option ProviderError :=
  (a.share.map .system).or (a.spawn.map .threadSpawn)

/-- Dials the command channel, if there is a port for it. -/
def connectCommand (net : Dial.Network m Connection) (c : LinkConfig) :
    m (Option Connection × List LinkNotice) :=
  match c.commandPort with
  | none => pure (none, [])
  | some port => do
    let o ← Dial.dial net (c.commandTarget port)
    let told := o.steps.map .dial
    match o.result with
    | .ok connection => return (some connection, told ++ [.commandConnected])
    | .error e => return (none, told ++ [.commandUnavailable e])

/-- The link over a telemetry stream that is connected, if its reader starts. -/
def startReader (a : Starting) (l : Link Connection) : Except ProviderError (Link Connection) :=
  match a.failure? with
  | some e => .error e
  | none => .ok l

/-- Dials a link: the command channel, then the telemetry stream, whose reader is then started. -/
def connect (net : Dial.Network m Connection) (a : Starting) (c : LinkConfig) :
    m (Opened Connection) := do
  let (command, told) ← connectCommand net c
  let o ← Dial.dial net c.telemetryTarget
  let told := told ++ o.steps.map .dial
  match o.result with
  | .ok telemetry => return ⟨startReader a ⟨c, telemetry, command⟩, told ++ [.telemetryConnected]⟩
  | .error e => return ⟨.error (.transport e), told ++ [.telemetryFailed e]⟩

/-- Sends a command as it is, and tells whether it went out. -/
def send (write : Connection → List UInt8 → m (Except SystemError Unit)) (l : Link Connection)
    (message : String) : m (Bool × LinkNotice) :=
  match l.command with
  | none => pure (false, .unsendable message)
  | some connection => do
    match ← write connection (Text.utf8 message) with
    | .ok _ => return (true, .sent message)
    | .error e => return (false, .sendFailed message e)

/-- A link as shown to a developer, with whether its stream is being read. -/
def description (l : Link Connection) (reading : Bool) : String :=
  let shown (b : Bool) : String := if b then "true" else "false"
  "SocketProvider \x7b config: " ++ l.config.description ++ ", command_connected: " ++
    shown l.command.isSome ++ ", reading: " ++ shown reading ++ " \x7d"

end Link

end EngineLink.Telemetry
