import EngineLink.Json.Printer
import EngineLink.Json.Reader

/-!
# Command envelopes

A command travels as a JSON object that names the node it is for and holds its text. Other
members are ignored; of several members of one name the last counts. On the bus a command is
its UTF-8 bytes and a final zero byte.
-/

namespace EngineLink

/-- A command for one node of the bus. -/
structure Envelope where
  node : String
  cmd : String
  deriving DecidableEq

/-- Why a message holds no command. -/
inductive EnvelopeError
  /-- The message is no JSON text. -/
  | malformed (e : Json.ReadError)
  /-- No member of this name holds a string. -/
  | missingField (name : String)
  deriving DecidableEq

/-- The sentence for a message that holds no command. -/
def EnvelopeError.message : EnvelopeError → String
  | malformed e => "could not parse message as json: " ++ e.message
  | missingField name => "message is missing string field `" ++ name ++ "`"

namespace Envelope

/-- The string of a member. -/
def field (value : Json) (name : String) : Except EnvelopeError String :=
  match (value.member? name).bind Json.asString? with
  | some text => .ok text
  | none => .error (.missingField name)

/-- The command that a JSON value describes. -/
def ofJson (value : Json) : Except EnvelopeError Envelope := do
  let node ← field value "node"
  let cmd ← field value "cmd"
  return ⟨node, cmd⟩

/-- The command that a message holds. -/
def parse (message : String) : Except EnvelopeError Envelope :=
  match Json.read message with
  | .error e => .error (.malformed e)
  | .ok value => ofJson value

/-- The bytes of a command on the bus: its text and a final zero. -/
def payload (e : Envelope) : List UInt8 :=
  Text.utf8 e.cmd ++ [0]

/-- A command as a JSON value. -/
def toJson (e : Envelope) : Json :=
  .object [("node", .string e.node), ("cmd", .string e.cmd)]

end Envelope

end EngineLink
