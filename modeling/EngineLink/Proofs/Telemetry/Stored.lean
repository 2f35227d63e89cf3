import EngineLink.Proofs.Framing.Messages
import EngineLink.Telemetry.Intake
import EngineLink.Telemetry.Latest

/-!
# What a telemetry reader stores

A reader stores the data point of every message that a sentinel closes, and of the lines in front
of the end of the stream, but not of those in front of a failure. While the stream is open the
value stored last is that of the last message that is closed. Read `stored_of_stream` for the
result, and `Intake.Follows` for what a reader holds between two pieces of its stream.
-/

namespace EngineLink.Telemetry

open Sentinel

/-- The data points of messages. -/
def pointsOf (messages : List (List String)) : List DataPoint :=
  messages.map DataPoint.ofLines

/-- A cell in which values were stored, one after another. -/
def Latest.storeAll {α : Type} (cell : Latest α) (values : List α) : Latest α :=
  values.foldl (fun cell value => (cell.replace value).1) cell

/-- A cell holds the value that was stored last. -/
theorem Latest.get_store_all {α : Type} (cell : Latest α) (values : List α) :
    (cell.storeAll values).get = values.getLastD cell.get := by
  induction values generalizing cell with
  | nil => rfl
  | cons value rest ih =>
      show ((cell.replace value).1.storeAll rest).get = _
      rw [ih, List.getLastD_cons]
      rfl

/-! ## The reader -/

/-- The flag that lets a reader run stays set. -/
def always (_ : Nat) : Bool :=
  true

/-- A reader goes by what the next message is. -/
theorem read_from_eq (turn : Nat) (stream : List ByteRead) :
    readFrom always turn stream = match readMessage standard stream with
      | (.ok m, rest) =>
          { readFrom always (turn + 1) rest with
            stored := DataPoint.ofLines m.lines :: (readFrom always (turn + 1) rest).stored }
      | (.error .connectionClosed, _) => ⟨[], .closed⟩
      | (.error (.system e), _) => ⟨[], .failed e⟩ := by
  rw [readFrom, if_pos (show always turn = true from rfl)]
  split
  · next heq => rw [heq]
  · next heq => rw [heq]
  · next heq => rw [heq]

/-- Messages are taken for as long as there is one. -/
theorem take_messages_eq (stream : List ByteRead) :
    takeMessages stream = match readMessage standard stream with
      | (.ok m, rest) => (m.lines :: (takeMessages rest).1, (takeMessages rest).2)
      | (.error _, _) => ([], stream) := by
  rw [takeMessages]
  split
  · next heq => rw [heq]
  · next hnot =>
      rcases hread : readMessage standard stream with ⟨_ | m, rest⟩
      · rfl
      · exact absurd hread (hnot m rest)

section
variable {reads left : List ByteRead} {messages : List (List String)}

/-- Messages that are read are stored in front of what is stored behind them. -/
theorem read_from_of_messages (h : ReadsMessages standard reads messages left)
    (tail : List ByteRead) (turn : Nat) :
    readFrom always turn (reads ++ tail) =
      { readFrom always (turn + messages.length) (left ++ tail) with
        stored := pointsOf messages ++
          (readFrom always (turn + messages.length) (left ++ tail)).stored } := by
  induction h generalizing turn with
  | nil => rfl
  | @cons reads next left lines messages hmessage _ ih =>
      rw [read_from_eq, hmessage tail]
      simp only [ih, List.length_cons, Nat.add_assoc, Nat.add_comm 1]
      rfl

/-- Messages that are read are taken off the front. -/
theorem take_messages_of_messages (h : ReadsMessages standard reads messages left)
    (tail : List ByteRead) :
    takeMessages (reads ++ tail) =
      (messages ++ (takeMessages (left ++ tail)).1, (takeMessages (left ++ tail)).2) := by
  induction h with
  | nil => rfl
  | cons hmessage _ ih =>
      rw [take_messages_eq, hmessage tail]
      simp only [ih, List.cons_append]

end

/-! ## A stream that is still open -/

/-- The messages that are taken off an open stream are those that are closed, and none is behind
them. -/
theorem take_messages_awaited {reads : List ByteRead} (hsteady : Steady reads) :
    ∃ last, ReadsMessages standard reads (closedMessages standard (bytesOf reads)) last ∧
      Steady last ∧ takeMessages (reads ++ [awaited]) =
        (closedMessages standard (bytesOf reads), last ++ [awaited]) := by
  obtain ⟨last, left, hmessages, hlines, hopen, hrest⟩ := reads_closed_messages standard hsteady
  -- the read that waits fails, so what is behind the closed messages is not taken
  have herror : readMessage standard (last ++ [awaited]) = (.error (.system _), []) :=
    read_message_of_failure hlines hopen hrest rfl []
  refine ⟨last, hmessages, hlines.steady, ?_⟩
  rw [take_messages_of_messages hmessages, take_messages_eq, herror, List.append_nil]

/-- The messages that are closed in more bytes are those that were closed before them, and those
that are closed in the bytes that were left and the new ones. -/
theorem closed_messages_append {reads last more : List ByteRead} (hsteady : Steady reads)
    (hmore : Steady more) (hlast : Steady last)
    (h : ReadsMessages standard reads (closedMessages standard (bytesOf reads)) last) :
    closedMessages standard (bytesOf reads ++ bytesOf more) =
      closedMessages standard (bytesOf reads) ++
        closedMessages standard (bytesOf last ++ bytesOf more) := by
  obtain ⟨_, _, _, hall⟩ := take_messages_awaited (hsteady.append hmore)
  obtain ⟨_, _, _, hbehind⟩ := take_messages_awaited (hlast.append hmore)
  have hboth := take_messages_of_messages h (more ++ [awaited])
  rw [← List.append_assoc, ← List.append_assoc, hall, hbehind] at hboth
  rw [← bytes_of_append, ← bytes_of_append]
  exact congrArg Prod.fst hboth

/-- The value stored last is that of the last message that is closed, or the empty one. -/
def latestIn (stream : List UInt8) : DataPoint :=
  latestOf (pointsOf (closedMessages standard stream))

/-- A reader to which a stream has arrived so far. -/
structure Intake.Follows (i : Intake) (stream : List UInt8) : Prop where
  reading : i.reading = true
  latest : i.latest = latestIn stream
  steady : Steady i.held
  /-- What is held is what later messages still need of the stream. -/
  held : ∀ more, closedMessages standard (stream ++ more) =
    closedMessages standard stream ++ closedMessages standard (bytesOf i.held ++ more)

/-- An intake that has taken nothing follows a stream of which nothing was read. -/
theorem Intake.follows_start : Intake.start.Follows [] where
  reading := rfl
  latest := rfl
  steady := steady_nil
  held _ := rfl

/-- Bytes that arrive close the messages that end in them. -/
theorem Intake.follows_feed {i : Intake} {stream : List UInt8} (h : i.Follows stream)
    (bytes : List UInt8) : (i.feed bytes).Follows (stream ++ bytes) := by
  have hsteady : Steady (i.held ++ bytes.map .byte) := h.steady.append (steady_map_byte bytes)
  have hbytes : bytesOf (i.held ++ bytes.map .byte) = bytesOf i.held ++ bytes := by
    rw [bytes_of_append, bytes_of_map_byte]
  obtain ⟨last, hmessages, hlast, htaken⟩ := take_messages_awaited hsteady
  rw [hbytes] at hmessages htaken
  have hfeed : i.feed bytes =
      { latest := (pointsOf (closedMessages standard (bytesOf i.held ++ bytes))).getLastD i.latest
        held := last
        reading := i.reading } := by
    rw [feed, if_pos h.reading, takeClosed, htaken, List.dropLast_concat]
    rfl
  rw [hfeed]
  refine ⟨h.reading, ?_, hlast, fun more => ?_⟩
  · show (pointsOf (closedMessages standard (bytesOf i.held ++ bytes))).getLastD i.latest = _
    rw [latestIn, h.held bytes, h.latest, latestIn, latestOf, latestOf, pointsOf, pointsOf,
      pointsOf, List.map_append]
    simp only [List.getLastD_eq_getLast?, List.getLast?_append, Option.getD_or]
  · -- `hmore` says of the bytes held what is to be shown of the whole stream
    rw [← hbytes] at hmessages
    have hmore := closed_messages_append hsteady (steady_map_byte more) hlast hmessages
    rw [hbytes, bytes_of_map_byte] at hmore
    rw [List.append_assoc, h.held (bytes ++ more), h.held bytes, ← List.append_assoc (bytesOf _),
      hmore, List.append_assoc]

/-- Whatever pieces a stream arrives in, a reader keeps up with it. -/
theorem Intake.follows_feeds {i : Intake} {stream : List UInt8} (h : i.Follows stream)
    (chunks : List (List UInt8)) : (chunks.foldl feed i).Follows (stream ++ chunks.flatten) := by
  induction chunks generalizing i stream with
  | nil =>
      rw [List.flatten_nil, List.append_nil]
      exact h
  | cons chunk rest ih =>
      rw [List.flatten_cons, ← List.append_assoc]
      exact ih (follows_feed h chunk)

/-! ## Whole streams -/

section
variable {reads : List ByteRead} (hsteady : Steady reads)
include hsteady

/-- A stream that ends makes one more message of the lines in front of its end. -/
theorem read_all_of_end :
    readAll reads = ⟨pointsOf (finalMessages standard (bytesOf reads)), .closed⟩ := by
  obtain ⟨last, left, hmessages, hlines, hopen, hrest⟩ := reads_closed_messages standard hsteady
  have hread := read_from_of_messages hmessages [] 0
  rw [List.append_nil, List.append_nil] at hread
  have hclosed : readMessage standard [] = (.error .connectionClosed, []) := by
    rw [readMessage, show gather standard [] = ⟨[], .ended, []⟩ from gather_of_end rfl]
    rfl
  -- behind the message that the end makes, the reader asks once more and finds the end again
  have hnothing (turn : Nat) : readFrom always turn [] = ⟨[], .closed⟩ := by
    rw [read_from_eq, hclosed]
  show readFrom always 0 reads = _
  rw [hread, read_from_eq, read_message_of_end hlines hopen hrest, final_messages_eq, pointsOf,
    pointsOf, List.map_append]
  by_cases hempty : openPiece (bytesOf reads) = []
  · by_cases hnone : (cutMessages standard [] (closedLines (bytesOf reads))).2 = []
    · simp only [hempty, hnone, if_true, List.map_nil]
    · simp only [hempty, hnone, if_true, if_false, hnothing, List.map_cons, List.map_nil]
  · simp only [hempty, if_false, hnothing, List.map_cons, List.map_nil]

/-- A failure ends a stream without a message of the lines in front of it. -/
theorem read_all_of_failure {e : SystemError} (hsignal : e.isInterrupted = false)
    (tail : List ByteRead) : readAll (reads ++ .failed e :: tail) =
      ⟨pointsOf (closedMessages standard (bytesOf reads)), .failed e⟩ := by
  obtain ⟨last, left, hmessages, hlines, hopen, hrest⟩ := reads_closed_messages standard hsteady
  have hread := read_from_of_messages hmessages (.failed e :: tail) 0
  have hfailed := read_message_of_failure hlines hopen hrest hsignal tail
  show readFrom always 0 (reads ++ .failed e :: tail) = _
  rw [hread, read_from_eq, hfailed, List.append_nil]

end

/-- A reader of a telemetry stream, interrupted or not, stores the data points of the messages that
a sentinel closes, in order. If the stream ends, it stores that of the lines behind them too, if
there are any; if the stream fails, it does not. While the stream is open, what has been stored is
the front of all that will be, the value stored last is that of the last message that is closed,
and so is the latest value of a reader to which the same bytes arrive in any pieces. -/
theorem stored_of_stream {body : List Segment} (hbody : Steady (Segment.allReads body)) :
    let bytes := bytesOf (Segment.allReads body)
    let closed := pointsOf (closedMessages standard bytes)
    readAll (Segment.allReads body) = ⟨pointsOf (finalMessages standard bytes), .closed⟩ ∧
      (∀ e tail, e.isInterrupted = false →
        readAll (Segment.allReads body ++ .failed e :: tail) = ⟨closed, .failed e⟩) ∧
      (∀ tail, closed <+: (readAll (Segment.allReads body ++ tail)).stored) ∧
      pointsOf (takeClosed (Segment.allReads body)).1 = closed ∧
      ((Latest.mk .empty).storeAll closed).get = latestOf closed ∧
      ∀ chunks : List (List UInt8), chunks.flatten = bytes →
        (chunks.foldl Intake.feed .start).latest = latestOf closed := by
  intro bytes closed
  obtain ⟨last, hmessages, _, htaken⟩ := take_messages_awaited hbody
  refine ⟨read_all_of_end hbody, fun e tail hsignal => read_all_of_failure hbody hsignal tail,
    fun tail => ?_, ?_, Latest.get_store_all _ _, fun chunks hchunks => ?_⟩
  · show closed <+: (readFrom always 0 (Segment.allReads body ++ tail)).stored
    rw [read_from_of_messages hmessages]
    exact List.prefix_append _ _
  · rw [takeClosed, htaken]
  · have hfollows := Intake.follows_feeds Intake.follows_start chunks
    rw [List.nil_append, hchunks] at hfollows
    exact hfollows.latest

/-- A stream of the bytes of one message and of a line behind it, with a signal in front of the
sentinel. -/
def signalledStream : List Segment :=
  [.data (Text.utf8 "a: 1\n[END"), .failure (.ofKind .interrupted), .data (Text.utf8 "MSG]\nb: 2")]

/-- A stream with a signal in it and an open message behind a closed one has both stored where it
ends, and only the first one where a failure cuts the second short. -/
theorem stored_of_signalled_stream :
    Steady (Segment.allReads signalledStream) ∧
      readAll (Segment.allReads signalledStream) =
        ⟨pointsOf [["a: 1", "[ENDMSG]"], ["b: 2"]], .closed⟩ ∧
      ∀ e tail, e.isInterrupted = false →
        readAll (Segment.allReads signalledStream ++ .failed e :: tail) =
          ⟨pointsOf [["a: 1", "[ENDMSG]"]], .failed e⟩ := by
  have hsignal : Steady [.failed (.ofKind .interrupted)] := by
    intro r hr
    rw [List.mem_singleton.1 hr]
    rfl
  have hsteady : Steady (Segment.allReads signalledStream) :=
    (steady_map_byte _).append (hsignal.append ((steady_map_byte _).append (steady_map_byte [])))
  have hfinal : finalMessages standard (bytesOf (Segment.allReads signalledStream)) =
      [["a: 1", "[ENDMSG]"], ["b: 2"]] := by decide +kernel
  have hclosed : closedMessages standard (bytesOf (Segment.allReads signalledStream)) =
      [["a: 1", "[ENDMSG]"]] := by decide +kernel
  obtain ⟨hended, hfailed, _⟩ := stored_of_stream hsteady
  rw [hfinal] at hended
  rw [hclosed] at hfailed
  exact ⟨hsteady, hended, hfailed⟩

end EngineLink.Telemetry
