import EngineLink.SystemError

/-!
# Failures of shared memory

The steps of opening, sizing, mapping and locking a segment, each with the failure of the system
behind it; and names that name no segment.
-/

namespace EngineLink

/-- A failure of a shared segment. -/
inductive MemoryError
  /-- The name is no name of a segment; the text says why. -/
  | invalidName (text : String)
  | segmentOpen (e : SystemError)
  | truncate (e : SystemError)
  | mmap (e : SystemError)
  | mutexInit (e : SystemError)
  | lock (e : SystemError)
  deriving DecidableEq

/-- The sentence for a failure of a shared segment. -/
def MemoryError.message : MemoryError → String
  | invalidName text => "invalid shared memory name: " ++ text
  | segmentOpen e => "failed to open shared memory segment: " ++ e.message
  | truncate e => "failed to size shared memory segment: " ++ e.message
  | mmap e => "failed to map shared memory segment: " ++ e.message
  | mutexInit e => "failed to initialise shared mutex: " ++ e.message
  | lock e => "failed to lock shared mutex: " ++ e.message

end EngineLink
