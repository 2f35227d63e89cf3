import EngineLink.Telemetry.Reader

/-!
# A reader fed piece by piece

What a reader of a telemetry stream has stored last, and the bytes of the message that is not
closed yet. The stream ends in one of two ways: it is closed, and the unfinished message is
stored, or it breaks, and the unfinished message is dropped.
-/

namespace EngineLink.Telemetry

/-- A reader between two pieces of its stream. -/
structure Intake where
  latest : DataPoint
  /-- The bytes behind the last closed message. -/
  held : List ByteRead
  /-- The stream has not ended. -/
  reading : Bool
  deriving DecidableEq

namespace Intake

/-- A reader to which nothing has arrived. -/
def start : Intake :=
  ⟨.empty, [], true⟩

/-- Stores the data points of messages, one after another. -/
def store (i : Intake) (messages : List (List String)) : Intake :=
  { i with latest := (messages.map DataPoint.ofLines).getLastD i.latest }

/-- Bytes arrive. -/
def feed (i : Intake) (bytes : List UInt8) : Intake :=
  if i.reading then
    let taken := takeClosed (i.held ++ bytes.map .byte)
    { i.store taken.1 with held := taken.2 }
  else i

/-- The stream is closed. -/
def close (i : Intake) : Intake :=
  if i.reading then
    { i.store (takeMessages i.held).1 with held := [], reading := false }
  else i

/-- The stream breaks. -/
def fail (i : Intake) : Intake :=
  { i with held := [], reading := false }

end Intake

end EngineLink.Telemetry
