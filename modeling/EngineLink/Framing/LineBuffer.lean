import EngineLink.Log
import EngineLink.Text.Digits
import EngineLink.Text.Utf8

/-!
# Line framing in a fixed buffer

A buffer of 256 cells splits a stream of bytes into messages that end in a line feed. Bytes are
written at a cursor and then committed; a commit cuts the committed bytes at their line feeds,
gives every non-empty piece as a message and moves what is left to the front. A buffer that is
full and holds no line feed is discarded before the next byte is taken.

Read `cut`, `LineBuffer.commit` and `LineBuffer.feed` first. Operations return the new buffer
and their notices in order; messages, counts and log events are views of the notices.
-/

namespace EngineLink

/-- The cells of a line buffer. -/
def lineCapacity : Nat := 256

/-- The byte that ends a message. -/
def lineFeed : UInt8 := 10

/-- What an operation on a line buffer has to tell. -/
inductive LineNotice
  /-- The buffer was full without a line feed and was discarded. -/
  | dumped
  /-- A message ended. -/
  | message (text : String)
  /-- After the last line feed of a commit this many bytes were left. -/
  | kept (bytes : Nat)
  deriving DecidableEq

namespace LineNotice

/-- The message of a notice, if it is one. -/
def message? : LineNotice → Option String
  | message text => some text
  | _ => none

/-- The log event of a notice. -/
def event : LineNotice → Log.Event
  | dumped =>
    ⟨.error, "receive buffer full with no delimiter, dumping buffer",
      [("capacity", Text.ofNat lineCapacity)]⟩
  | message text => ⟨.debug, "new message", [("size", Text.ofNat (Text.utf8 text).length)]⟩
  | kept bytes => ⟨.debug, "bytes remaining in buffer", [("remaining", Text.ofNat bytes)]⟩

/-- The messages among notices, in order. -/
def messages (notices : List LineNotice) : List String :=
  notices.filterMap message?

/-- How often the buffer was discarded. -/
def dumps (notices : List LineNotice) : Nat :=
  notices.count dumped

end LineNotice

/-- What a feed counts. -/
structure FeedStats where
  /-- The messages that ended. -/
  messages : Nat
  /-- How often the buffer was discarded. -/
  overflows : Nat
  deriving DecidableEq

/-- The counts of the notices of a feed. A count that is kept beside the cells and goes up by one
with each message and each discard comes to the same (`LineBuffer.WellFormed.feed_by_access`). -/
def FeedStats.ofNotices (notices : List LineNotice) : FeedStats :=
  ⟨(LineNotice.messages notices).length, LineNotice.dumps notices⟩

/-- Cuts `new` at its line feeds, the first piece continuing `held`. Gives the pieces that end
in a line feed, without it, and the bytes after the last one. -/
def cut (held : List UInt8) : List UInt8 → List (List UInt8) × List UInt8
  | [] => ([], held)
  | b :: rest =>
    if b = lineFeed then
      let later := cut [] rest
      (held :: later.1, later.2)
    else cut (held ++ [b]) rest

/-- A buffer of cells with a write cursor. Cells behind the cursor keep what was last in
them. -/
structure LineBuffer where
  cells : List UInt8
  cursor : Nat
  deriving DecidableEq

namespace LineBuffer

/-- A buffer with zero in every cell and nothing held. -/
def empty : LineBuffer :=
  ⟨List.replicate lineCapacity 0, 0⟩

/-- The number of bytes held. -/
def size (b : LineBuffer) : Nat :=
  b.cursor

/-- No byte is held. -/
def isEmpty (b : LineBuffer) : Bool :=
  b.cursor = 0

/-- The number of cells behind the cursor. -/
def remaining (b : LineBuffer) : Nat :=
  lineCapacity - b.cursor

/-- There is no cell behind the cursor. -/
def isFull (b : LineBuffer) : Bool :=
  b.remaining = 0

/-- The bytes held, which end in no message yet. -/
def pending (b : LineBuffer) : List UInt8 :=
  b.cells.take b.cursor

/-- The cells behind the cursor. -/
def spare (b : LineBuffer) : List UInt8 :=
  b.cells.drop b.cursor

/-- Writes as many bytes as fit behind the cursor, without committing them. -/
def write (b : LineBuffer) (bytes : List UInt8) : LineBuffer :=
  let fitting := bytes.take b.remaining
  { b with cells := b.pending ++ fitting ++ b.spare.drop fitting.length }

/-- The notices of a commit that ended `pieces` and left `tail`. An empty piece is no message;
what is left is told only if something ended. -/
def cutNotices (pieces : List (List UInt8)) (tail : List UInt8) : List LineNotice :=
  (pieces.filter (· ≠ [])).map (fun piece => .message (Text.lossy piece)) ++
    if pieces ≠ [] ∧ tail ≠ [] then [.kept tail.length] else []

/-- Takes `n` written bytes as held, at most as many as there are cells behind the cursor, and
ends the messages in them. Only the new bytes are looked at. -/
def commit (b : LineBuffer) (n : Nat) : LineBuffer × List LineNotice :=
  let pieces := cut b.pending (b.spare.take (min n b.remaining))
  (⟨pieces.2 ++ b.cells.drop pieces.2.length, pieces.2.length⟩, cutNotices pieces.1 pieces.2)

/-- Makes room: a full buffer is discarded, any other stays. -/
def makeRoom (b : LineBuffer) : LineBuffer × List LineNotice :=
  if b.isFull then (empty, [.dumped]) else (b, [])

/-- Once room is made, there is a spare cell. -/
theorem remaining_make_room_pos (b : LineBuffer) : 0 < b.makeRoom.1.remaining := by
  unfold makeRoom
  split
  · decide
  · next h => simpa [isFull, Nat.pos_iff_ne_zero] using h

/-- Appends a chunk in pieces no longer than the room for them, discarding the buffer whenever
it is full. -/
def feed (b : LineBuffer) (chunk : List UInt8) : LineBuffer × List LineNotice :=
  if _h : chunk = [] then (b, [])
  else
    let room := b.makeRoom
    let n := min chunk.length room.1.remaining
    let taken := (room.1.write (chunk.take n)).commit n
    let later := taken.1.feed (chunk.drop n)
    (later.1, room.2 ++ taken.2 ++ later.2)
termination_by chunk.length
decreasing_by
  have := b.remaining_make_room_pos
  have : 0 < chunk.length := List.length_pos_iff.2 _h
  simp only [List.length_drop]
  omega

/-- Feeds chunks one after another. -/
def feedAll (b : LineBuffer) : List (List UInt8) → LineBuffer × List LineNotice
  | [] => (b, [])
  | chunk :: chunks =>
    let first := b.feed chunk
    let later := first.1.feedAll chunks
    (later.1, first.2 ++ later.2)

/-- What each feed counts when chunks are fed one after another. -/
def feedStats (b : LineBuffer) : List (List UInt8) → List FeedStats
  | [] => []
  | chunk :: chunks =>
    let first := b.feed chunk
    .ofNotices first.2 :: first.1.feedStats chunks

/-- A buffer as shown to a developer. -/
def description (b : LineBuffer) : String :=
  "LineBuffer \x7b len: " ++ Text.ofNat b.size ++ ", capacity: " ++ Text.ofNat lineCapacity ++
    " \x7d"

end LineBuffer

end EngineLink
