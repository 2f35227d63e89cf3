import EngineLink.Log
import EngineLink.Program.Arguments

/-!
# The commands of the program

Five commands and three options that every command takes. An invocation is what a command line
asks for, with every default filled in.
-/

namespace EngineLink

open Arguments (Form Opt Given UsageError)

/-- How results are printed. -/
inductive OutputFormat
  | json | table | pretty
  deriving DecidableEq

namespace OutputFormat

/-- The word for a format. -/
def name : OutputFormat → String
  | json => "json"
  | table => "table"
  | pretty => "pretty"

/-- The format of a word. -/
def ofName? (word : String) : Option OutputFormat :=
  [json, table, pretty].find? fun f => f.name == word

/-- The format unless another one is asked for: a terminal gets tables. -/
def standard (terminal : Bool) : OutputFormat :=
  if terminal then table else json

end OutputFormat

/-- How log events are printed. -/
inductive LogFormat
  | text | json
  deriving DecidableEq

namespace LogFormat

/-- The word for a log format. -/
def name : LogFormat → String
  | text => "text"
  | json => "json"

/-- The log format of a word. -/
def ofName? (word : String) : Option LogFormat :=
  [text, json].find? fun f => f.name == word

end LogFormat

/-- What the telemetry command is asked for. -/
structure TelemetryRequest where
  host : String
  port : Nat
  /-- Zero means no command channel, like nothing. -/
  commandPort : Option Nat
  /-- The commands that are sent once connected. -/
  commands : List String
  maxAttempts : Nat
  retryWait : String
  interval : String
  /-- The number of data points after which the command ends. -/
  count : Option Nat
  deriving DecidableEq

/-- What the program is asked to do. -/
inductive Request
  | bridge (port : Nat)
  | listen (port : Nat) (count : Option Nat)
  | telemetry (r : TelemetryRequest)
  | blackboard (segment : String) (full : Bool)
  | version (extended : Bool)
  deriving DecidableEq

/-- A command line with every default filled in. -/
structure Invocation where
  format : Option OutputFormat
  logFormat : LogFormat
  logLevel : Log.Level
  request : Request
  deriving DecidableEq

namespace Invocation

/-- The largest number of a port. -/
def maxPort : Nat := 0xFFFF

/-- The largest number of repeated attempts. -/
def maxRetries : Nat := 0xFFFFFFFF

/-- An option with a value of this form that is read from the command line only. -/
def option (name : String) (form : Form) (default? : Option String) : Opt :=
  ⟨name, form, none, default?, false⟩

/-- The port on which commands arrive unless another one is named. -/
def standardPort : String := "12020"

/-- The options that every command takes, in front of its name or behind it. -/
def sharedOptions : List Opt :=
  [option "format" (.choice ["json", "table", "pretty"]) none,
    option "log-format" (.choice ["text", "json"]) (some "text"),
    option "log-level" (.choice ["error", "warn", "info", "debug", "trace"]) (some "info")]

/-- The port of the bridge command. -/
def bridgePort : Opt :=
  ⟨"port", .integer maxPort, some "SIMBRIDGE_BRIDGE_PORT", some standardPort, false⟩

/-- The port of the listen command. -/
def listenPort : Opt :=
  ⟨"port", .integer maxPort, some "SIMBRIDGE_LISTEN_PORT", some standardPort, false⟩

/-- The number of results after which a command ends. -/
def count : Opt :=
  option "count" (.natural Text.maxWord) none

/-- The host of the engine. -/
def host : Opt :=
  ⟨"host", .text, some "SIMBRIDGE_HOST", some "localhost", false⟩

/-- The port of the telemetry stream, which must be given. -/
def telemetryPort : Opt :=
  ⟨"port", .integer maxPort, some "SIMBRIDGE_TELEMETRY_PORT", none, true⟩

/-- The port for commands to the engine. -/
def commandPort : Opt :=
  ⟨"command-port", .integer maxPort, some "SIMBRIDGE_COMMAND_PORT", none, false⟩

/-- A command for the engine. -/
def send : Opt :=
  option "send" .texts none

/-- The number of repeated attempts. -/
def maxAttempts : Opt :=
  ⟨"max-attempts", .integer maxRetries, some "SIMBRIDGE_MAX_ATTEMPTS", some "5", false⟩

/-- The wait between two attempts. -/
def retryWait : Opt :=
  ⟨"retry-wait", .text, some "SIMBRIDGE_RETRY_WAIT", some "5s", false⟩

/-- The time between two samples. -/
def interval : Opt :=
  option "interval" .text (some "1s")

/-- The name of the shared segment. -/
def segment : Opt :=
  ⟨"name", .text, some "SIMBRIDGE_BLACKBOARD", some "Blackboard", false⟩

/-- Every field is printed. -/
def full : Opt :=
  option "full" .flag none

/-- The provenance is printed. -/
def extended : Opt :=
  option "extended" .flag none

/-- The commands with their options. -/
def commands : List Arguments.Command :=
  [⟨"bridge", [bridgePort] ++ sharedOptions⟩,
    ⟨"listen", [listenPort, count] ++ sharedOptions⟩,
    ⟨"telemetry",
      [host, telemetryPort, commandPort, send, maxAttempts, retryWait, interval, count] ++
        sharedOptions⟩,
    ⟨"blackboard", [segment, full] ++ sharedOptions⟩,
    ⟨"version", [extended] ++ sharedOptions⟩]

/-- What stands in front of a command. -/
def scope : Arguments.Scope :=
  ⟨sharedOptions, commands, true⟩

/-- The value of an option, or its default. -/
def value? (o : Opt) (given : Given) : Option String :=
  (Arguments.valuesOf o given).head?

/-- The text of an option with a default. -/
def textOf (o : Opt) (given : Given) : String :=
  (value? o given).getD ""

/-- The number of an option. -/
def numberOf? (o : Opt) (given : Given) : Option Nat :=
  (value? o given).bind o.form.number?

/-- The number of an option that has one. -/
def numberOf (o : Opt) (given : Given) : Nat :=
  (numberOf? o given).getD 0

/-- The flag was given. -/
def isSet (o : Opt) (given : Given) : Bool :=
  (given.lookup o.name).isSome

/-- What a command is asked to do by its values. -/
def requestOf (name : String) (given : Given) : Request :=
  if name = "bridge" then .bridge (numberOf bridgePort given)
  else if name = "listen" then .listen (numberOf listenPort given) (numberOf? count given)
  else if name = "telemetry" then
    .telemetry
      { host := textOf host given
        port := numberOf telemetryPort given
        commandPort := numberOf? commandPort given
        commands := Arguments.valuesOf send given
        maxAttempts := numberOf maxAttempts given
        retryWait := textOf retryWait given
        interval := textOf interval given
        count := numberOf? count given }
  else if name = "blackboard" then .blackboard (textOf segment given) (isSet full given)
  else .version (isSet extended given)

/-- Reads a command line in an environment. A shared option behind the command hides the same
one in front of it. -/
def read (env : List (String × String)) (words : List String) : Except UsageError Invocation :=
  match Arguments.read env scope words with
  | .error e => .error e
  | .ok parsed =>
    let given := parsed.inner ++ parsed.outer
    let shared (name : String) : Option String :=
      (sharedOptions.find? fun o => o.name == name).bind fun o => value? o given
    .ok
      { format := (shared "format").bind OutputFormat.ofName?
        logFormat := ((shared "log-format").bind LogFormat.ofName?).getD .text
        logLevel := ((shared "log-level").bind Log.Level.ofName?).getD .info
        request := requestOf parsed.command.name parsed.inner }

end Invocation

end EngineLink
