import EngineLink.Proofs.LineServer.Serving

/-!
# The messages in the readings of a connection

What the reads of a connection gave determines its messages: the bytes go through a line buffer
that starts empty, and empty again behind every read that failed, unless a signal made it fail.
Read `epochs` and `readMessages` first. `Buffered` says what the buffer of a slot holds after
such readings, and `buffered_served` that serving the slot keeps it so.
-/

namespace EngineLink

/-- What a read of a connection gave. -/
abbrev Reading := Except SystemError (List UInt8)

namespace Reading

/-- The bytes that a read brought. -/
def bytes : Reading → List UInt8
  | .ok bytes => bytes
  | .error _ => []

/-- The read failed, and no signal made it fail. -/
def breaks : Reading → Bool
  | .ok _ => false
  | .error e => !e.isInterrupted

end Reading

/-- All bytes that reads brought. -/
def bytesRead (rs : List Reading) : List UInt8 :=
  rs.flatMap Reading.bytes

/-- The bytes that reads brought between one failure and the next. -/
def epochs (rs : List Reading) : List (List UInt8) :=
  (rs.splitOnP Reading.breaks).map bytesRead

/-- The messages of reads: of each epoch, those that a new line buffer finds in it. -/
def readMessages (rs : List Reading) : List String :=
  (epochs rs).flatMap fun bytes => LineNotice.messages (LineBuffer.empty.feed bytes).2

/-- The bytes of readings one behind the other are those of each. -/
theorem bytes_read_append (first second : List Reading) :
    bytesRead (first ++ second) = bytesRead first ++ bytesRead second := by
  simp [bytesRead]

/-! ## Taking one reading after another -/

/-- What a reading makes of the bytes held, and the messages that end in it. -/
def takeReading (held : List UInt8) : Reading → List UInt8 × List String
  | .ok bytes => ((takeBytes held bytes).1, LineNotice.messages (takeBytes held bytes).2)
  | .error e => (if e.isInterrupted then held else [], [])

/-- What readings make of the bytes held, and the messages that end in them. -/
def takeReadings (held : List UInt8) : List Reading → List UInt8 × List String
  | [] => (held, [])
  | r :: rest =>
      let first := takeReading held r
      let later := takeReadings first.1 rest
      (later.1, first.2 ++ later.2)

/-- Taking readings in two steps is taking them at once. -/
theorem take_readings_append (held : List UInt8) (first second : List Reading) :
    takeReadings held (first ++ second) =
      ((takeReadings (takeReadings held first).1 second).1,
        (takeReadings held first).2 ++ (takeReadings (takeReadings held first).1 second).2) := by
  induction first generalizing held with
  | nil => simp [takeReadings]
  | cons r rest ih => simp [takeReadings, ih]

/-- The messages in bytes, behind bytes that are held. -/
def messagesBehind (held bytes : List UInt8) : List String :=
  LineNotice.messages (takeBytes held bytes).2

/-- A new line buffer finds the messages of the automaton. -/
theorem messages_feed_empty (bytes : List UInt8) :
    LineNotice.messages (LineBuffer.empty.feed bytes).2 = messagesBehind [] bytes := by
  obtain ⟨_, _, hnotices⟩ := LineBuffer.feed_take_bytes LineBuffer.well_formed_empty bytes
  rw [LineBuffer.pending_empty] at hnotices
  rw [messagesBehind, ← hnotices, LineNotice.messages_outcomes]

/-- The first epoch continues the bytes held, and every later one starts with none. -/
theorem messages_take_readings (held : List UInt8) (rs : List Reading) :
    ∃ first later, epochs rs = first :: later ∧
      (takeReadings held rs).2 =
        messagesBehind held first ++ later.flatMap (messagesBehind []) := by
  induction rs generalizing held with
  | nil => exact ⟨[], [], rfl, rfl⟩
  | cons r rest ih =>
      match r with
      | .ok bytes =>
          obtain ⟨first, later, hepochs, hmessages⟩ := ih (takeBytes held bytes).1
          obtain ⟨part, parts, hparts, rfl, rfl⟩ := List.map_eq_cons_iff.1 hepochs
          refine ⟨bytes ++ bytesRead part, parts.map bytesRead, ?_, ?_⟩
          · simp [epochs, List.splitOnP_cons_eq_if_modifyHead, hparts, Reading.breaks, bytesRead,
              Reading.bytes]
          · simp [takeReadings, takeReading, hmessages, messagesBehind, take_bytes_append]
      | .error e =>
          by_cases hsignal : e.isInterrupted
          · obtain ⟨first, later, hepochs, hmessages⟩ := ih held
            obtain ⟨part, parts, hparts, rfl, rfl⟩ := List.map_eq_cons_iff.1 hepochs
            refine ⟨bytesRead part, parts.map bytesRead, ?_, ?_⟩
            · simp [epochs, List.splitOnP_cons_eq_if_modifyHead, hparts, Reading.breaks, hsignal,
                bytesRead, Reading.bytes]
            · simpa [takeReadings, takeReading, hsignal] using hmessages
          · obtain ⟨first, later, hepochs, hmessages⟩ := ih []
            refine ⟨[], first :: later, ?_, ?_⟩
            · simp [epochs, List.splitOnP_cons_eq_if_modifyHead, Reading.breaks, hsignal, bytesRead,
                ← hepochs]
            · simp [takeReadings, takeReading, hsignal, hmessages, messagesBehind, takeBytes]

/-- Readings of a connection complete the messages of their epochs. -/
theorem take_readings_eq_read_messages (rs : List Reading) :
    (takeReadings [] rs).2 = readMessages rs := by
  obtain ⟨first, later, hepochs, hmessages⟩ := messages_take_readings [] rs
  simp only [readMessages, messages_feed_empty, hepochs, hmessages, List.flatMap_cons]

/-! ## The buffer of a slot -/

/-- A buffer after readings that left these bytes held: it holds them, unless they filled it and
it has been discarded already. -/
structure Buffered (b : LineBuffer) (held : List UInt8) : Prop where
  wellFormed : b.WellFormed
  pending : b.pending = held ∨ b.pending = [] ∧ held.length = lineCapacity

/-- Before any reading the buffer is empty. -/
theorem buffered_empty : Buffered .empty [] :=
  ⟨LineBuffer.well_formed_empty, .inl LineBuffer.pending_empty⟩

namespace Buffered

variable {b : LineBuffer} {held : List UInt8}

/-- A full buffer holds what the readings left. -/
theorem pending_of_full (h : Buffered b held) (hfull : b.isFull = true) :
    held.length = lineCapacity := by
  rcases h.pending with hpending | ⟨_, hlength⟩
  · rw [← hpending]
    exact h.wellFormed.is_full_iff.1 hfull
  · exact hlength

/-- A buffer that is discarded early makes of further bytes what one would that is discarded in
front of them, up to the notice of it. -/
theorem take_bytes (h : Buffered b held) {bytes : List UInt8} (hbytes : bytes ≠ []) :
    (takeBytes b.pending bytes).1 = (takeBytes held bytes).1 ∧
      LineNotice.messages (takeBytes b.pending bytes).2 =
        LineNotice.messages (takeBytes held bytes).2 := by
  rcases h.pending with hpending | ⟨hpending, hfull⟩
  · rw [hpending]
    exact ⟨rfl, rfl⟩
  · rw [hpending, take_bytes_of_full held hfull bytes hbytes]
    exact ⟨rfl, rfl⟩

/-- Bytes that a read brought go through the buffer. -/
theorem commit_write (h : Buffered b held) {bytes : List UInt8} (hbytes : bytes ≠ [])
    (hroom : bytes.length ≤ b.remaining) :
    Buffered ((b.write bytes).commit bytes.length).1 (takeReading held (.ok bytes)).1 ∧
      LineNotice.messages ((b.write bytes).commit bytes.length).2 =
        (takeReading held (.ok bytes)).2 := by
  have hwell : ((b.write bytes).commit bytes.length).1.WellFormed :=
    (h.wellFormed.write bytes).commit bytes.length
  obtain ⟨hpending, hnotices⟩ := LineBuffer.commit_write_take_bytes h.wellFormed bytes hroom
  obtain ⟨hheld, hmessages⟩ := h.take_bytes hbytes
  refine ⟨⟨hwell, .inl (hpending.trans hheld)⟩, ?_⟩
  rw [← LineNotice.messages_outcomes, hnotices, hmessages]
  rfl

end Buffered

/-- What serving a slot reads: nothing if its buffer is full. -/
def Slot.readingsOf (slot : Slot) (answer : Reading) : List Reading :=
  if slot.buffer.isFull then [] else [answer]

/-- A slot that is served is freed or keeps its connection; its buffer, and the messages told of,
are those of the readings. -/
theorem buffered_served {slot : Slot} {held : List UInt8} (h : Buffered slot.buffer held)
    (i : Fin maxClients) (c : Connection) (answer : Reading)
    (hroom : answer.bytes.length ≤ slot.buffer.remaining) :
    ((slot.served i c answer).1 = .free ∨
        (slot.served i c answer).1.stream = slot.stream ∧
          Buffered (slot.served i c answer).1.buffer
            (takeReadings held (slot.readingsOf answer)).1) ∧
      ServerNotice.messages (slot.served i c answer).2 =
        (takeReadings held (slot.readingsOf answer)).2 := by
  cases hfull : slot.buffer.isFull with
  | true =>
      rw [Slot.served_of_full i c hfull, show slot.readingsOf answer = [] by
        simp [Slot.readingsOf, hfull]]
      -- the automaton discards the same bytes, but with the next one
      refine ⟨.inr ⟨rfl, LineBuffer.well_formed_empty, .inr ⟨?_, h.pending_of_full hfull⟩⟩, rfl⟩
      exact LineBuffer.pending_empty
  | false =>
      have htaken : takeReadings held (slot.readingsOf answer) = takeReading held answer := by
        simp [Slot.readingsOf, hfull, takeReadings]
      rw [htaken]
      match answer, hroom with
      | .ok [], _ =>
          rw [Slot.served_of_end i c hfull]
          exact ⟨.inl rfl, rfl⟩
      | .ok (b :: bytes), hroom =>
          obtain ⟨hbuffered, hmessages⟩ := h.commit_write (List.cons_ne_nil b bytes) hroom
          rw [Slot.served_of_bytes i c hfull (List.cons_ne_nil b bytes)]
          refine ⟨.inr ⟨rfl, hbuffered⟩, ?_⟩
          rw [← hmessages, ServerNotice.messages_cons, ServerNotice.messages_map_line]
          rfl
      | .error e, _ =>
          cases hsignal : e.isInterrupted with
          | true =>
              rw [Slot.served_of_signal i c hfull hsignal,
                show takeReading held (.error e) = (held, []) by simp [takeReading, hsignal]]
              exact ⟨.inr ⟨rfl, h⟩, rfl⟩
          | false =>
              rw [Slot.served_of_failure i c hfull hsignal,
                show takeReading held (.error e) = ([], []) by simp [takeReading, hsignal]]
              exact ⟨.inr ⟨rfl, buffered_empty⟩, rfl⟩

end EngineLink
