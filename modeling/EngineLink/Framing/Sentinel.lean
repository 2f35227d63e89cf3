import EngineLink.Log
import EngineLink.SystemError
import EngineLink.Text.Utf8

/-!
# Messages of lines that a sentinel closes

A stream is read one byte at a time. A line ends at a line feed, at the end of the stream or
when it has 510 bytes; a message is a sequence of lines of which the last starts with the
sentinel. An interrupted read is tried again, any other failure drops what was gathered.

Read `takeLine` and `Sentinel.readMessage` first. A stream is the outcomes of its successive
one-byte reads, so how its bytes were cut into segments is not seen.
-/

namespace EngineLink

/-- The outcome of reading one byte. -/
inductive ByteRead
  | byte (b : UInt8)
  /-- The read failed. -/
  | failed (e : SystemError)
  /-- The read gave no byte. -/
  | ended
  deriving DecidableEq

/-- A part of a stream: bytes that arrive together, a failing read, or a read that gives no
byte. -/
inductive Segment
  | data (bytes : List UInt8)
  | failure (e : SystemError)
  | pause
  deriving DecidableEq

/-- The outcomes of reading a segment byte by byte. An empty segment is not seen. -/
def Segment.reads : Segment → List ByteRead
  | data bytes => bytes.map .byte
  | failure e => [.failed e]
  | pause => [.ended]

/-- The outcomes of reading segments byte by byte; after them every read gives no byte. -/
def Segment.allReads (segments : List Segment) : List ByteRead :=
  segments.flatMap reads

/-- The number of bytes that a stream still has. -/
def byteCount (stream : List ByteRead) : Nat :=
  stream.countP fun | .byte _ => true | _ => false

/-- The longest line, in bytes. -/
def maxLineLength : Nat := 510

/-- What ended the gathering of a line. -/
inductive LineRead
  /-- A line, without its line feed. -/
  | line (bytes : List UInt8)
  /-- The stream ended before the first byte of a line. -/
  | ended
  | failed (e : SystemError)
  deriving DecidableEq

/-- Gathers one line behind the bytes `held` of it, and gives the stream that is left. A line
at the longest length ends without a further read. -/
def takeLine (held : List UInt8) : List ByteRead → LineRead × List ByteRead
  | [] => (if held = [] then .ended else .line held, [])
  | read :: rest =>
    if maxLineLength ≤ held.length then (.line held, read :: rest)
    else match read with
      | .ended => (if held = [] then .ended else .line held, rest)
      | .failed e => if e.isInterrupted then takeLine held rest else (.failed e, rest)
      | .byte b => if b = 10 then (.line held, rest) else takeLine (held ++ [b]) rest

/-- Gathering a line leaves no more of the stream than there was. -/
theorem take_line_length_le (held : List UInt8) (stream : List ByteRead) :
    (takeLine held stream).2.length ≤ stream.length := by
  fun_induction takeLine held stream <;> simp <;> omega

/-- A line takes something from the stream unless it was at the longest length before. -/
theorem take_line_length_lt {held bytes : List UInt8} {stream rest : List ByteRead}
    (room : held.length < maxLineLength) (h : takeLine held stream = (.line bytes, rest))
    (fresh : held = []) : rest.length < stream.length := by
  subst fresh
  cases stream with
  | nil => simp [takeLine] at h
  | cons read tail =>
    have le := take_line_length_le
    unfold takeLine at h
    rw [if_neg (by omega)] at h
    cases read with
    | ended => simp at h
    | failed e =>
      simp only at h
      split at h
      · have := le [] tail
        rw [h] at this
        simp only [List.length_cons]
        simp only at this
        omega
      · simp at h
    | byte b =>
      simp only at h
      split at h
      · simp only [Prod.mk.injEq] at h
        simp [← h.2]
      · have := le ([] ++ [b]) tail
        rw [h] at this
        simp only [List.length_cons]
        simp only at this
        omega

/-- Lines that belong together. -/
structure SentinelMessage where
  lines : List String
  /-- The last line starts with the sentinel. -/
  complete : Bool
  deriving DecidableEq

/-- Why no message was read. -/
inductive FrameError
  /-- Reading the stream failed. -/
  | system (e : SystemError)
  /-- The stream ended before a line of the message. -/
  | connectionClosed
  deriving DecidableEq

/-- The sentence for a failed reading. -/
def FrameError.message : FrameError → String
  | system e => "frame I/O error: " ++ e.message
  | connectionClosed => "connection closed (no message data)"

namespace Sentinel

/-- The sentinel that streams use unless another one is named. -/
def standard : String := "[ENDMSG]"

/-- A line starts with the sentinel. -/
def closes (sentinel line : String) : Bool :=
  sentinel.toList.isPrefixOf line.toList

/-- Reads one line: its text, or nothing at the end of the stream. -/
def readLine (stream : List ByteRead) : Except SystemError (Option String) × List ByteRead :=
  match takeLine [] stream with
  | (.line bytes, rest) => (.ok (some (Text.lossy bytes)), rest)
  | (.ended, rest) => (.ok none, rest)
  | (.failed e, rest) => (.error e, rest)

/-- Reading a line takes something off the stream. -/
theorem read_line_length_lt {stream rest : List ByteRead} {line : String}
    (h : readLine stream = (.ok (some line), rest)) : rest.length < stream.length := by
  unfold readLine at h
  split at h
  · next bytes r hline =>
    simp only [Prod.mk.injEq, Except.ok.injEq] at h
    rw [← h.2]
    exact take_line_length_lt (by decide) hline rfl
  · simp at h
  · simp at h

/-- What ended the gathering of a message. -/
inductive Stop
  /-- The last line starts with the sentinel. -/
  | closed
  /-- The stream ended in front of a line. -/
  | ended
  | failed (e : SystemError)
  deriving DecidableEq

/-- The lines read for a message, what ended it, and the stream that is left. -/
structure Gathered where
  lines : List String
  stop : Stop
  rest : List ByteRead
  deriving DecidableEq

/-- Reads lines until one closes the message or there is none. -/
def gather (sentinel : String) (stream : List ByteRead) : Gathered :=
  match _h : readLine stream with
  | (.error e, rest) => ⟨[], .failed e, rest⟩
  | (.ok none, rest) => ⟨[], .ended, rest⟩
  | (.ok (some line), rest) =>
    if closes sentinel line then ⟨[line], .closed, rest⟩
    else
      let later := gather sentinel rest
      { later with lines := line :: later.lines }
termination_by stream.length
decreasing_by exact read_line_length_lt _h

/-- The message that gathered lines make. A failure drops them; the end of the stream in front
of the first line makes none. -/
def Gathered.result (g : Gathered) : Except FrameError SentinelMessage :=
  match g.stop with
  | .closed => .ok ⟨g.lines, true⟩
  | .ended => if g.lines = [] then .error .connectionClosed else .ok ⟨g.lines, false⟩
  | .failed e => .error (.system e)

/-- Reads one message. -/
def readMessage (sentinel : String) (stream : List ByteRead) :
    Except FrameError SentinelMessage × List ByteRead :=
  let g := gather sentinel stream
  (g.result, g.rest)

/-- The log event of a line that was read. -/
def lineEvent (line : String) : Log.Event :=
  ⟨.trace, "telemetry line", [("line", line)]⟩

end Sentinel

end EngineLink
