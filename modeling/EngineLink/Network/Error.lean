import EngineLink.SystemError

/-!
# Failures of connections

The steps at which listening and dialling can fail, each with the failure of the system behind
it.
-/

namespace EngineLink

/-- A network address as text, `host:port`. -/
abbrev Address := String

/-- A failure to listen or to dial. -/
inductive TransportError
  | socket (e : SystemError)
  | bind (address : Address) (e : SystemError)
  | listen (address : Address) (e : SystemError)
  | accept (e : SystemError)
  /-- The host has no address. -/
  | resolve (host : String) (port : Nat) (e : SystemError)
  /-- Every attempt to connect failed, the last one with this failure. -/
  | exhausted (host : String) (port attempts : Nat) (e : SystemError)
  | system (e : SystemError)
  deriving DecidableEq

/-- Why a host cannot even be looked up, if so: its name holds a zero character. -/
def hostFault? (host : String) : Option SystemError :=
  if host.toList.contains (Char.ofNat 0) then
    some (.described .invalidInput "file name contained an unexpected NUL byte")
  else none

namespace TransportError

/-- The failure of the system behind it. -/
def source : TransportError → SystemError
  | socket e | bind _ e | listen _ e | accept e | resolve _ _ e | exhausted _ _ _ e | system e => e

/-- A host and a port as an address. -/
def addressText (host : String) (port : Nat) : String :=
  host ++ ":" ++ Text.ofNat port

/-- The sentence for a failure to listen or to dial. -/
def message : TransportError → String
  | socket e => "failed to create socket: " ++ e.message
  | bind address e => "failed to bind to " ++ address ++ ": " ++ e.message
  | listen address e => "failed to listen on " ++ address ++ ": " ++ e.message
  | accept e => "failed to accept connection: " ++ e.message
  | resolve host port e => "failed to resolve " ++ addressText host port ++ ": " ++ e.message
  | exhausted host port attempts e =>
    "failed to connect to " ++ addressText host port ++ " after " ++ Text.ofNat attempts ++
      " attempts: " ++ e.message
  | system e => "transport I/O error: " ++ e.message

end TransportError

end EngineLink
