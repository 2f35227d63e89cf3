import EngineLink.Framing.Sentinel
import EngineLink.Telemetry.DataPoint

/-!
# The reader of a telemetry stream

The reader takes messages off the stream and stores the data point of each, while it may run. A
message that the end of the stream cuts short is stored, one that a failure cuts short is not.

Read `readFrom` first. A run is the data points stored in order and what ended it; whether the
reader may run is asked once before each message. `takeClosed` is the same for a stream that is
still open.
-/

namespace EngineLink

/-- Gathering a message leaves no more of the stream than there was. -/
theorem Sentinel.gather_length_le (sentinel : String) (stream : List ByteRead) :
    (gather sentinel stream).rest.length ≤ stream.length := by
  have all : ∀ s : List ByteRead, (readLine s).2.length ≤ s.length := by
    intro s
    have := take_line_length_le [] s
    unfold readLine
    split <;> simp_all
  fun_induction gather sentinel stream with
  | case1 stream e rest h => have := all stream; simp_all
  | case2 stream rest h => have := all stream; simp_all
  | case3 stream line rest h => have := all stream; simp_all
  | case4 stream line rest h _ _ ih =>
    have := all stream
    rw [h] at this
    exact Nat.le_trans ih this

/-- Gathering a message with a line takes something off the stream. -/
theorem Sentinel.gather_length_lt {sentinel : String} {stream : List ByteRead}
    (h : (gather sentinel stream).lines ≠ []) :
    (gather sentinel stream).rest.length < stream.length := by
  revert h
  fun_cases gather sentinel stream with
  | case1 => simp
  | case2 => simp
  | case3 line rest heq _ => exact fun _ => read_line_length_lt heq
  | case4 line rest heq _ _ =>
    exact fun _ => Nat.lt_of_le_of_lt (gather_length_le sentinel rest) (read_line_length_lt heq)

/-- A message that is closed has a line. -/
theorem Sentinel.gather_lines_of_closed {sentinel : String} {stream : List ByteRead}
    (h : (gather sentinel stream).stop = .closed) : (gather sentinel stream).lines ≠ [] := by
  revert h
  fun_cases gather sentinel stream <;> simp

/-- Reading a message takes something off the stream. -/
theorem Sentinel.read_message_length_lt {sentinel : String} {stream rest : List ByteRead}
    {m : SentinelMessage} (h : readMessage sentinel stream = (.ok m, rest)) :
    rest.length < stream.length := by
  simp only [readMessage, Prod.mk.injEq] at h
  rw [← h.2]
  apply gather_length_lt
  intro none'
  have result := h.1
  unfold Gathered.result at result
  split at result
  · next closed => exact gather_lines_of_closed closed none'
  · simp [none'] at result
  · simp at result

namespace Telemetry

/-- What ended a reader. -/
inductive ReaderEnd
  /-- The stream ended. -/
  | closed
  | failed (e : SystemError)
  /-- The reader may no longer run. -/
  | stopped
  deriving DecidableEq

/-- What a reader stored, in order, and what ended it. -/
structure ReaderRun where
  stored : List DataPoint
  finish : ReaderEnd
  deriving DecidableEq

/-- Reads messages while `running` says so at its turn. -/
def readFrom (running : Nat → Bool) (turn : Nat) (stream : List ByteRead) : ReaderRun :=
  if running turn then
    match _h : Sentinel.readMessage Sentinel.standard stream with
    | (.ok m, rest) =>
      let later := readFrom running (turn + 1) rest
      { later with stored := DataPoint.ofLines m.lines :: later.stored }
    | (.error .connectionClosed, _) => ⟨[], .closed⟩
    | (.error (.system e), _) => ⟨[], .failed e⟩
  else ⟨[], .stopped⟩
termination_by stream.length
decreasing_by exact Sentinel.read_message_length_lt _h

/-- Reads messages until the stream ends or fails. -/
def readAll (stream : List ByteRead) : ReaderRun :=
  readFrom (fun _ => true) 0 stream

/-- Takes whole messages off the front of a stream. -/
def takeMessages (stream : List ByteRead) : List (List String) × List ByteRead :=
  match _h : Sentinel.readMessage Sentinel.standard stream with
  | (.ok m, rest) =>
    let later := takeMessages rest
    (m.lines :: later.1, later.2)
  | _ => ([], stream)
termination_by stream.length
decreasing_by exact Sentinel.read_message_length_lt _h

/-- The read behind the last byte that has arrived on a stream that is still open. -/
def awaited : ByteRead :=
  .failed (.ofKind .wouldBlock)

/-- Takes the messages that are closed within the bytes that have arrived, and gives the bytes
behind them. -/
def takeClosed (arrived : List ByteRead) : List (List String) × List ByteRead :=
  let taken := takeMessages (arrived ++ [awaited])
  (taken.1, taken.2.dropLast)

/-- The data point stored last, or the empty one. -/
def latestOf (stored : List DataPoint) : DataPoint :=
  stored.getLastD .empty

end Telemetry

end EngineLink
