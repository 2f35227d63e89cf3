import EngineLink.Blackboard.Layout
import EngineLink.Blackboard.Name
import EngineLink.Log
import EngineLink.Text.Literal

/-!
# Shared segments and their handles

A name leads to at most one segment. Opening a name attaches to its segment or creates one, and
gives the segment the size that is asked for; unlinking takes the name away, while handles keep
the segment they are attached to. Segments are told apart by their order of creation.

Read `Memories.openWith` and `Memories.unlink` first: an opening makes several calls of the system,
each of which may fail.
-/

namespace EngineLink.Blackboard

/-- The segments that were created, in order, and the names that lead to some of them. -/
structure Memories where
  names : List (String × Nat)
  segments : List Memory
  deriving DecidableEq

/-- A mapped segment. -/
structure Handle where
  /-- The segment, by its order of creation. -/
  segment : Nat
  name : String
  size : Nat
  created : Bool
  deriving DecidableEq

namespace Memories

/-- No segment was created. -/
def empty : Memories :=
  ⟨[], []⟩

/-- What opening a name gave, and the segments after it. -/
structure Opened where
  result : Except MemoryError Handle
  after : Memories

/-- The segment of a number; one that was never created has no byte. -/
def segment (ms : Memories) (n : Nat) : Memory :=
  (ms.segments[n]?).getD (.zero 0)

/-- The same segments with another content of one of them. -/
def update (ms : Memories) (n : Nat) (m : Memory) : Memories :=
  { ms with segments := ms.segments.set n m }

/-- Names that the system keeps for itself. -/
def reserved (name : String) : Bool :=
  name == "/." || name == "/.."

/-- The largest size that the system takes. -/
def maxSize : Nat := 0x7FFFFFFFFFFFFFFF

/-- What the system answers to the calls of one opening, each by what it is called with; nothing
where the call does its work. -/
structure Answers where
  /-- To creating a segment of a name, unless the name has one. -/
  create : String → Option SystemError
  /-- To attaching to the segment of a name, unless the name has none. -/
  attach : String → Option SystemError
  /-- To asking for the size of the segment. -/
  measure : Option SystemError
  /-- To giving the segment another size. -/
  resize : Nat → Option SystemError
  /-- To mapping so many bytes of the segment. -/
  map : Nat → Option SystemError

/-- The answers of a system that may have no descriptor left. It keeps some names for itself, has
no segment above the largest size and maps none that is empty. -/
def Answers.usual (descriptors : Bool) : Answers where
  create name :=
    if reserved name then some (.code 22) else if descriptors then none else some (.code 24)
  attach _ := none
  measure := none
  resize size := if maxSize < size then some (.code 22) else none
  map size := if size = 0 then some (.code 22) else none

/-- Attaches to the segment of a name, or creates an empty one. The flag tells which. -/
def attach (ms : Memories) (name : String) : Nat × Bool × Memories :=
  match ms.names.lookup name with
  | some n => (n, false, ms)
  | none =>
    let n := ms.segments.length
    (n, true, ⟨ms.names ++ [(name, n)], ms.segments ++ [.zero 0]⟩)

/-- Why no segment is created under a name, if none is: one that has a segment gets no other. -/
def createFailure? (ms : Memories) (a : Answers) (name : String) : Option SystemError :=
  (a.create name).or ((ms.names.lookup name).map fun _ => .code 17)

/-- Why a name cannot be attached to, if so. -/
def attachFailure? (ms : Memories) (a : Answers) (name : String) : Option SystemError :=
  (a.attach name).or (if (ms.names.lookup name).isNone then some (.code 2) else none)

/-- Creates an empty segment under a name, or attaches to the one it has. The flag tells which. -/
def openSegment (ms : Memories) (a : Answers) (name : String) :
    Except SystemError (Nat × Bool × Memories) :=
  match ms.createFailure? a name with
  | none => .ok (ms.attach name)
  | some e =>
    if e.kind = .alreadyExists then
      match ms.attachFailure? a name with
      | none => .ok (ms.attach name)
      | some e => .error e
    else .error e

/-- Gives a segment a size, unless it has it. -/
def giveSize (ms : Memories) (a : Answers) (n size : Nat) : Except MemoryError Memories :=
  match a.measure with
  | some e => .error (.segmentOpen e)
  | none =>
    if (ms.segment n).size = size then .ok ms
    else match a.resize size with
      | some e => .error (.truncate e)
      | none => .ok (ms.update n ((ms.segment n).resize size))

/-- Gives an open segment a size and maps it. -/
def mapSegment (ms : Memories) (a : Answers) (n : Nat) (created : Bool) (name : String)
    (size : Nat) : Opened :=
  match ms.giveSize a n size with
  | .error e => ⟨.error e, ms⟩
  | .ok sized =>
    match a.map size with
    | some e => ⟨.error (.mmap e), sized⟩
    | none => ⟨.ok ⟨n, name, size, created⟩, sized⟩

/-- Opens a name with a size. A call that fails ends the opening where it stands: what was created
or resized before stays. -/
def openWith (ms : Memories) (a : Answers) (name : String) (size : Nat) : Opened :=
  match systemName name with
  | .error e => ⟨.error e, ms⟩
  | .ok name =>
    match ms.openSegment a name with
    | .error e => ⟨.error (.segmentOpen e), ms⟩
    | .ok opened => opened.2.2.mapSegment a opened.1 opened.2.1 name size

/-- Opens a name with a size on the usual system. -/
def openSized (ms : Memories) (descriptors : Bool) (name : String) (size : Nat) : Opened :=
  ms.openWith (.usual descriptors) name size

/-- Takes a name away; a name without a segment is none to take away. -/
def unlink (ms : Memories) (name : String) : Except MemoryError Memories :=
  match systemName name with
  | .error e => .error e
  | .ok name =>
    if reserved name then .error (.segmentOpen (.code 21))
    else .ok { ms with names := ms.names.filter fun entry => entry.1 != name }

end Memories

namespace Handle

/-- The log event of mapping a segment. -/
def mappedEvent (h : Handle) : Log.Event :=
  ⟨.debug, "mapped shared memory segment",
    [("name", h.name), ("size", Text.ofNat h.size),
      ("created", if h.created then "true" else "false")]⟩

/-- A handle as shown to a developer. -/
def description (h : Handle) : String :=
  "ShmSegment \x7b name: " ++ Text.literal h.name ++ ", size: " ++ Text.ofNat h.size ++
    ", created: " ++ (if h.created then "true" else "false") ++ " \x7d"

/-- The bytes of a segment at a place, if all of them belong to what is mapped. -/
def peek? (h : Handle) (ms : Memories) (place count : Nat) : Option (List UInt8) :=
  if place + count ≤ h.size then some ((ms.segment h.segment).read place count) else none

/-- Writes bytes into a segment at a place, if all of them belong to what is mapped. -/
def poke? (h : Handle) (ms : Memories) (place : Nat) (bytes : List UInt8) : Option Memories :=
  if place + bytes.length ≤ h.size then
    some (ms.update h.segment ((ms.segment h.segment).write place bytes))
  else none

end Handle

end EngineLink.Blackboard
