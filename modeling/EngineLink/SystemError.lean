import EngineLink.Text.Digits

/-!
# Failures of the operating system

A failed system call has an error number, and with it a kind and a text. A failure that the
library reports itself has a kind, and a text of its own or that of the kind.
-/

namespace EngineLink

/-- The kinds of failure that callers tell apart. -/
inductive ErrorKind
  | notFound | permissionDenied | connectionRefused | connectionReset | hostUnreachable
  | networkUnreachable | connectionAborted | notConnected | addrInUse | addrNotAvailable
  | brokenPipe | alreadyExists | wouldBlock | isADirectory | invalidInput | invalidData
  | timedOut | interrupted | unsupported | unexpectedEof | outOfMemory | tooManyOpenFiles
  | other | uncategorized
  deriving DecidableEq

namespace ErrorKind

/-- The name of a kind. -/
def name : ErrorKind → String
  | notFound => "NotFound"
  | permissionDenied => "PermissionDenied"
  | connectionRefused => "ConnectionRefused"
  | connectionReset => "ConnectionReset"
  | hostUnreachable => "HostUnreachable"
  | networkUnreachable => "NetworkUnreachable"
  | connectionAborted => "ConnectionAborted"
  | notConnected => "NotConnected"
  | addrInUse => "AddrInUse"
  | addrNotAvailable => "AddrNotAvailable"
  | brokenPipe => "BrokenPipe"
  | alreadyExists => "AlreadyExists"
  | wouldBlock => "WouldBlock"
  | isADirectory => "IsADirectory"
  | invalidInput => "InvalidInput"
  | invalidData => "InvalidData"
  | timedOut => "TimedOut"
  | interrupted => "Interrupted"
  | unsupported => "Unsupported"
  | unexpectedEof => "UnexpectedEof"
  | outOfMemory => "OutOfMemory"
  | tooManyOpenFiles => "TooManyOpenFiles"
  | other => "Other"
  | uncategorized => "Uncategorized"

/-- The text of a failure of which only the kind is known. -/
def message : ErrorKind → String
  | notFound => "entity not found"
  | permissionDenied => "permission denied"
  | connectionRefused => "connection refused"
  | connectionReset => "connection reset"
  | hostUnreachable => "host unreachable"
  | networkUnreachable => "network unreachable"
  | connectionAborted => "connection aborted"
  | notConnected => "not connected"
  | addrInUse => "address in use"
  | addrNotAvailable => "address not available"
  | brokenPipe => "broken pipe"
  | alreadyExists => "entity already exists"
  | wouldBlock => "operation would block"
  | isADirectory => "is a directory"
  | invalidInput => "invalid input parameter"
  | invalidData => "invalid data"
  | timedOut => "timed out"
  | interrupted => "operation interrupted"
  | unsupported => "unsupported"
  | unexpectedEof => "unexpected end of file"
  | outOfMemory => "out of memory"
  | tooManyOpenFiles => "too many open files"
  | other => "other error"
  | uncategorized => "uncategorized error"

/-- Every kind. -/
def all : List ErrorKind :=
  [notFound, permissionDenied, connectionRefused, connectionReset, hostUnreachable,
    networkUnreachable, connectionAborted, notConnected, addrInUse, addrNotAvailable,
    brokenPipe, alreadyExists, wouldBlock, isADirectory, invalidInput, invalidData,
    timedOut, interrupted, unsupported, unexpectedEof, outOfMemory, tooManyOpenFiles,
    other, uncategorized]

/-- The kind of a name. -/
def ofName? (name : String) : Option ErrorKind :=
  all.find? fun kind => kind.name == name

end ErrorKind

/-- A failed operation of the system. -/
inductive SystemError
  /-- A system call failed with this error number. -/
  | code (number : Nat)
  /-- Only the kind is known. -/
  | ofKind (kind : ErrorKind)
  /-- A failure with a text of its own. -/
  | described (kind : ErrorKind) (text : String)
  deriving DecidableEq

namespace SystemError

/-- The error numbers of the system with their kinds and texts. -/
def codes : List (Nat × ErrorKind × String) :=
  [(1, .permissionDenied, "Operation not permitted"),
    (2, .notFound, "No such file or directory"),
    (4, .interrupted, "Interrupted system call"),
    (5, .uncategorized, "Input/output error"),
    (9, .uncategorized, "Bad file descriptor"),
    (11, .wouldBlock, "Resource temporarily unavailable"),
    (12, .outOfMemory, "Cannot allocate memory"),
    (13, .permissionDenied, "Permission denied"),
    (17, .alreadyExists, "File exists"),
    (21, .isADirectory, "Is a directory"),
    (22, .invalidInput, "Invalid argument"),
    (24, .tooManyOpenFiles, "Too many open files"),
    (32, .brokenPipe, "Broken pipe"),
    (98, .addrInUse, "Address already in use"),
    (99, .addrNotAvailable, "Cannot assign requested address"),
    (101, .networkUnreachable, "Network is unreachable"),
    (103, .connectionAborted, "Software caused connection abort"),
    (104, .connectionReset, "Connection reset by peer"),
    (107, .notConnected, "Transport endpoint is not connected"),
    (110, .timedOut, "Connection timed out"),
    (111, .connectionRefused, "Connection refused"),
    (113, .hostUnreachable, "No route to host")]

/-- The kind of an error number. -/
def codeKind (number : Nat) : ErrorKind :=
  ((codes.lookup number).map Prod.fst).getD .uncategorized

/-- The text of an error number. -/
def codeText (number : Nat) : String :=
  ((codes.lookup number).map Prod.snd).getD ("Unknown error " ++ Text.ofNat number)

/-- The kind of a failure. -/
def kind : SystemError → ErrorKind
  | code number => codeKind number
  | ofKind kind => kind
  | described kind _ => kind

/-- The text of a failure; an error number is named after its text. -/
def message : SystemError → String
  | code number => codeText number ++ " (os error " ++ Text.ofNat number ++ ")"
  | ofKind kind => kind.message
  | described _ text => text

/-- A signal arrived before the operation did anything. -/
def isInterrupted (e : SystemError) : Bool :=
  e.kind == .interrupted

end SystemError

end EngineLink
