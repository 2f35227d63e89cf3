import EngineLink.Blackboard.Namespace
import EngineLink.Decimal.Style

/-!
# Reading and writing the blackboard

A blackboard is a segment of fixed size with a lock and a state. Who creates the segment also
makes its lock; writers change the state and readers copy it while they hold the lock.

Read `openBoardWith`, `update` and `snapshot` first. Every step gives the segments after it.
-/

namespace EngineLink.Blackboard

/-- What opening a blackboard gave, and the segments after it. -/
structure Opened extends Memories.Opened where
  /-- The segment that was mapped, if one was, also where it got no lock. -/
  mapped : Option Handle

/-- Makes the lock of a new segment, unless the system fails to. -/
def giveLock (ms : Memories) (lock : Option SystemError) (h : Handle) : Memories.Opened :=
  match lock with
  | some e => ⟨.error (.mutexInit e), ms⟩
  | none => ⟨.ok h, ms.update h.segment ((ms.segment h.segment).write 0 newLock)⟩

/-- Opens the blackboard of a name. A new segment gets its lock; one that gets none stays. -/
def openBoardWith (ms : Memories) (a : Memories.Answers) (lock : Option SystemError)
    (name : String) : Opened :=
  let opened := ms.openWith a name boardSize
  match opened.result with
  | .error _ => ⟨opened, none⟩
  | .ok h => ⟨if h.created then giveLock opened.after lock h else opened, some h⟩

/-- Opens the blackboard of a name on the usual system, which fails to make no lock. -/
def openBoard (ms : Memories) (descriptors : Bool) (name : String) : Opened :=
  openBoardWith ms (.usual descriptors) none name

/-- Changes the state under the lock. -/
def update (ms : Memories) (h : Handle) (f : State → State) : Except MemoryError Memories :=
  let m := ms.segment h.segment
  if canLock m then .ok (ms.update h.segment (writeState m (f (readState m))))
  else .error (.lock (.code 22))

/-- Replaces the whole state under the lock. -/
def publish (ms : Memories) (h : Handle) (s : State) : Except MemoryError Memories :=
  update ms h fun _ => s

/-- Copies the state under the lock. -/
def snapshot (ms : Memories) (h : Handle) : Except MemoryError State :=
  let m := ms.segment h.segment
  if canLock m then .ok (readState m) else .error (.lock (.code 22))

/-- Copies what the models of the hardware read of the state under the lock. -/
def dataPoint (ms : Memories) (h : Handle) : Except MemoryError SensorValues :=
  (snapshot ms h).map State.sensorValues

/-- The fields of a handle that its log events name. -/
def openedFields (h : Handle) : List (String × String) :=
  [("name", h.name), ("created", if h.created then "true" else "false")]

/-- The log events of mapping the segment of a blackboard. -/
def Opened.mappedEvents (o : Opened) : List Log.Event :=
  o.mapped.toList.map Handle.mappedEvent

/-- The log events of opening a blackboard for reading by a name. -/
def readerEvents (name : String) (o : Opened) : List Log.Event :=
  o.mappedEvents ++ match o.result with
    | .ok h => [⟨.debug, "opened blackboard for reading", openedFields h⟩]
    | .error e => [⟨.error, "failed to open blackboard", [("name", name), ("error", e.message)]⟩]

/-- The log events of opening a blackboard for writing. -/
def writerEvents (o : Opened) : List Log.Event :=
  o.mappedEvents ++ match o.result with
    | .ok h => [⟨.debug, "opened blackboard for writing", openedFields h⟩]
    | .error _ => []

/-- The log event of copying the state. -/
def snapshotEvent : Except MemoryError State → Log.Event
  | .ok s => ⟨.trace, "blackboard snapshot", [("gps_sec", Decimal.logText (s .gpsSec)[0])]⟩
  | .error e => ⟨.error, "failed to lock blackboard", [("error", e.message)]⟩

end EngineLink.Blackboard
