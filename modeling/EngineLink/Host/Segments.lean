import EngineLink.Blackboard.Namespace

/-!
# Shared segments of the operating system

The system shows every shared segment as a file of its name. A command gets the one segment that
it opens, and what it did to that segment is written back.
-/

namespace EngineLink.Host

open Blackboard

/-- The file of a segment. -/
def segmentFile (name : String) : String :=
  "/dev/shm" ++ name

/-- The segments as far as a name leads to one. -/
def segments (name : String) : IO Memories := do
  match systemName name with
  | .error _ => return .empty
  | .ok full =>
    try
      let bytes := (← IO.FS.readBinFile (segmentFile full)).toList
      return ⟨[(full, 0)], [⟨bytes.length, bytes⟩]⟩
    catch _ =>
      return .empty

/-- Writes the segment of a name back if it has changed. -/
def keepSegment (name : String) (before after : Memories) : IO Unit := do
  match systemName name with
  | .error _ => return
  | .ok full =>
    match after.names.lookup full with
    | none => return
    | some n =>
      let m := after.segment n
      if before.names.lookup full == some n && before.segment n == m then return
      IO.FS.writeBinFile (segmentFile full) (ByteArray.mk (m.read 0 m.size).toArray)

end EngineLink.Host
