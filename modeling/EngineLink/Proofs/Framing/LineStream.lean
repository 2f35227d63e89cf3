import EngineLink.Framing.LineBuffer
import Mathlib.Algebra.GroupWithZero.Nat
import Mathlib.Data.List.DropRight

/-!
# What a line buffer makes of a stream

A buffer that is fed in chunks behaves like an automaton on single bytes, whose state is the
bytes held. Read `takeByte` first, then `feed_take_bytes`: a feed makes exactly the steps of the
automaton, wherever the chunks are cut. `heldOf` gives the state behind any bytes of a line in
closed form, and `outcome_of_chunks` the messages, the counts and the bytes held for a whole
stream.
-/

namespace EngineLink

/-! ## Streams and their lines -/

/-- The lines of a stream that end in a line feed, without it. -/
def endedLines (stream : List UInt8) : List (List UInt8) :=
  (stream.splitOn lineFeed).dropLast

/-- The bytes of a stream behind its last line feed. -/
def openLine (stream : List UInt8) : List UInt8 :=
  (stream.splitOn lineFeed).getLastD []

/-- A cut behind bytes without a line feed splits the stream at its line feeds. -/
theorem split_on_cut (held bytes : List UInt8) (hheld : lineFeed ∉ held) :
    (held ++ bytes).splitOn lineFeed = (cut held bytes).1 ++ [(cut held bytes).2] := by
  induction bytes generalizing held with
  | nil => simp [cut, List.splitOn_eq_singleton hheld]
  | cons b rest ih =>
      by_cases hb : b = lineFeed
      · subst hb
        rw [List.splitOn_append_cons_self_of_not_mem hheld]
        have := ih [] (by simp)
        simp only [List.nil_append] at this
        simp [cut, this]
      · have hnext : lineFeed ∉ held ++ [b] := by
          simpa [hheld] using fun h => hb h.symm
        have := ih (held ++ [b]) hnext
        simpa [cut, hb] using this

/-- The pieces of a cut are the lines that ended. -/
theorem ended_lines_eq_cut (stream : List UInt8) : endedLines stream = (cut [] stream).1 := by
  have := split_on_cut [] stream (by simp)
  simp only [List.nil_append] at this
  simp [endedLines, this]

/-- What a cut leaves is the line that has not ended. -/
theorem open_line_eq_cut (stream : List UInt8) : openLine stream = (cut [] stream).2 := by
  have := split_on_cut [] stream (by simp)
  simp only [List.nil_append] at this
  simp [openLine, this]

/-- Cutting in two steps is cutting at once. -/
theorem cut_append (held first second : List UInt8) :
    cut held (first ++ second) =
      ((cut held first).1 ++ (cut (cut held first).2 second).1,
        (cut (cut held first).2 second).2) := by
  induction first generalizing held with
  | nil => simp [cut]
  | cons b rest ih =>
      by_cases hb : b = lineFeed <;> simp [cut, hb, ih]

/-- Bytes of a line and its line feed end the line. -/
theorem cut_line (held line : List UInt8) (hline : lineFeed ∉ line) :
    cut held (line ++ [lineFeed]) = ([held ++ line], []) := by
  induction line generalizing held with
  | nil => simp [cut]
  | cons b rest ih =>
      rw [List.mem_cons, not_or] at hline
      rw [List.cons_append, cut, if_neg (Ne.symm hline.1), ih (held ++ [b]) hline.2,
        List.append_assoc, List.singleton_append]

/-- Lines that each stand in front of a line feed are the pieces of a cut. -/
theorem cut_lines (lines : List (List UInt8)) (hlines : ∀ line ∈ lines, lineFeed ∉ line) :
    cut [] (lines.flatMap fun line => line ++ [lineFeed]) = (lines, []) := by
  induction lines with
  | nil => rfl
  | cons line rest ih =>
      have hrest := ih fun line hmem => hlines line (List.mem_cons_of_mem _ hmem)
      rw [List.flatMap_cons, cut_append, cut_line [] line (hlines line List.mem_cons_self), hrest]
      rfl

/-- What a cut leaves holds no line feed. -/
theorem line_feed_not_mem_cut (held bytes : List UInt8) (hheld : lineFeed ∉ held) :
    lineFeed ∉ (cut held bytes).2 := by
  induction bytes generalizing held with
  | nil => simpa [cut] using hheld
  | cons b rest ih =>
      by_cases hb : b = lineFeed
      · simpa [cut, hb] using ih [] (by simp)
      · have hnext : lineFeed ∉ held ++ [b] := by
          simpa [hheld] using fun h => hb h.symm
        simpa [cut, hb] using ih (held ++ [b]) hnext

/-- What a cut leaves is no longer than all the bytes before it. -/
theorem length_cut_le (held bytes : List UInt8) :
    (cut held bytes).2.length ≤ held.length + bytes.length := by
  induction bytes generalizing held with
  | nil => simp [cut]
  | cons b rest ih =>
      by_cases hb : b = lineFeed
      · have := ih []
        simp only [cut, hb, if_true, List.length_cons]
        simp only [List.length_nil] at this
        omega
      · have := ih (held ++ [b])
        simp only [cut, hb, if_false, List.length_cons]
        simp only [List.length_append, List.length_singleton] at this
        omega

/-! ## The notices that do not tell how the bytes were cut -/

namespace LineNotice

/-- The notices of messages and dumps. How many bytes a commit left is not among them, since that
depends on where the stream was cut. -/
def outcomes (notices : List LineNotice) : List LineNotice :=
  notices.filter fun
    | kept _ => false
    | _ => true

/-- A dump is an outcome. -/
@[simp] theorem outcomes_cons_dumped (rest : List LineNotice) :
    outcomes (.dumped :: rest) = .dumped :: outcomes rest := rfl

/-- A message is an outcome. -/
@[simp] theorem outcomes_cons_message (text : String) (rest : List LineNotice) :
    outcomes (.message text :: rest) = .message text :: outcomes rest := rfl

/-- What a commit left is no outcome. -/
@[simp] theorem outcomes_cons_kept (bytes : Nat) (rest : List LineNotice) :
    outcomes (.kept bytes :: rest) = outcomes rest := rfl

/-- The outcomes of notices one behind the other are those of each. -/
@[simp] theorem outcomes_append (first second : List LineNotice) :
    outcomes (first ++ second) = outcomes first ++ outcomes second := by
  simp [outcomes]

/-- Without a notice there is no message. -/
@[simp] theorem messages_nil : messages [] = [] := rfl

/-- A notice of a message gives its text. -/
@[simp] theorem messages_cons_message (text : String) (rest : List LineNotice) :
    messages (.message text :: rest) = text :: messages rest := rfl

/-- A dump gives no message. -/
@[simp] theorem messages_cons_dumped (rest : List LineNotice) :
    messages (.dumped :: rest) = messages rest := rfl

/-- What a commit left gives no message. -/
@[simp] theorem messages_cons_kept (bytes : Nat) (rest : List LineNotice) :
    messages (.kept bytes :: rest) = messages rest := rfl

/-- The messages of notices one behind the other are those of each. -/
@[simp] theorem messages_append (first second : List LineNotice) :
    messages (first ++ second) = messages first ++ messages second := by
  simp [messages]

/-- Without a notice there is no dump. -/
@[simp] theorem dumps_nil : dumps [] = 0 := rfl

/-- The dumps of notices one behind the other are counted together. -/
@[simp] theorem dumps_append (first second : List LineNotice) :
    dumps (first ++ second) = dumps first + dumps second := by
  simp [dumps]

/-- Messages are outcomes. -/
theorem messages_outcomes (notices : List LineNotice) :
    messages (outcomes notices) = messages notices := by
  induction notices with
  | nil => rfl
  | cons notice rest ih => cases notice <;> simp [ih]

/-- Dumps are outcomes. -/
theorem dumps_outcomes (notices : List LineNotice) :
    dumps (outcomes notices) = dumps notices := by
  induction notices with
  | nil => rfl
  | cons notice rest ih =>
      cases notice <;> simp_all [dumps]

end LineNotice

/-- The outcome of a line that ends with these bytes held. -/
def endLine (held : List UInt8) : List LineNotice :=
  if held = [] then [] else [.message (Text.lossy held)]

/-- The outcomes of a commit are those of the pieces that it ends. -/
theorem outcomes_cut_notices (pieces : List (List UInt8)) (tail : List UInt8) :
    LineNotice.outcomes (LineBuffer.cutNotices pieces tail) = pieces.flatMap endLine := by
  have htail : LineNotice.outcomes
      (if pieces ≠ [] ∧ tail ≠ [] then [.kept tail.length] else []) = [] := by
    split <;> rfl
  rw [LineBuffer.cutNotices, LineNotice.outcomes_append, htail, List.append_nil]
  -- what is left does not hang on the tail
  clear htail
  induction pieces with
  | nil => rfl
  | cons piece rest ih =>
      by_cases hpiece : piece = []
      · simpa [hpiece, endLine] using ih
      · simpa [hpiece, endLine] using ih

/-! ## The automaton on bytes -/

/-- What a line buffer does with one byte, told from the bytes it holds: a full buffer is
discarded, then a line feed ends the message and any other byte is held. -/
def takeByte (held : List UInt8) (b : UInt8) : List UInt8 × List LineNotice :=
  let room := if held.length = lineCapacity then ([], [.dumped]) else (held, [])
  if b = lineFeed then ([], room.2 ++ endLine room.1) else (room.1 ++ [b], room.2)

/-- What a line buffer does with bytes, one after another. -/
def takeBytes (held : List UInt8) : List UInt8 → List UInt8 × List LineNotice
  | [] => (held, [])
  | b :: rest =>
      let first := takeByte held b
      let later := takeBytes first.1 rest
      (later.1, first.2 ++ later.2)

/-- Taking bytes in two steps is taking them at once. -/
theorem take_bytes_append (held first second : List UInt8) :
    takeBytes held (first ++ second) =
      ((takeBytes (takeBytes held first).1 second).1,
        (takeBytes held first).2 ++ (takeBytes (takeBytes held first).1 second).2) := by
  induction first generalizing held with
  | nil => simp [takeBytes]
  | cons b rest ih => simp [takeBytes, ih]

/-- Bytes for which there is room are cut and nothing is discarded. -/
theorem take_bytes_of_room (held bytes : List UInt8)
    (hroom : held.length + bytes.length ≤ lineCapacity) :
    takeBytes held bytes = ((cut held bytes).2, (cut held bytes).1.flatMap endLine) := by
  induction bytes generalizing held with
  | nil => simp [takeBytes, cut]
  | cons b rest ih =>
      simp only [List.length_cons] at hroom
      have hnotFull : held.length ≠ lineCapacity := by omega
      by_cases hb : b = lineFeed
      · have hfits : ([] : List UInt8).length + rest.length ≤ lineCapacity := by
          rw [List.length_nil]
          omega
        have hrest := ih [] hfits
        simp [takeBytes, takeByte, cut, hnotFull, hb, hrest]
      · have hfits : (held ++ [b]).length + rest.length ≤ lineCapacity := by
          rw [List.length_append, List.length_singleton]
          omega
        have hrest := ih (held ++ [b]) hfits
        simp [takeBytes, takeByte, cut, hnotFull, hb, hrest]

/-- A full buffer is discarded with the next byte. -/
theorem take_bytes_of_full (held : List UInt8) (hfull : held.length = lineCapacity)
    (bytes : List UInt8) (hbytes : bytes ≠ []) :
    takeBytes held bytes =
      ((takeBytes [] bytes).1, .dumped :: (takeBytes [] bytes).2) := by
  cases bytes with
  | nil => exact absurd rfl hbytes
  | cons b rest =>
      have hempty : 0 ≠ lineCapacity := by decide
      by_cases hb : b = lineFeed
      · simp [takeBytes, takeByte, hfull, hempty, hb]
      · simp [takeBytes, takeByte, hfull, hempty, hb]

namespace LineBuffer

/-! ## The buffer runs the automaton -/

/-- A buffer as its operations keep it: every cell is there, the cursor stands behind one of them
or in front of the first, and no line feed is held. -/
structure WellFormed (b : LineBuffer) : Prop where
  cells : b.cells.length = lineCapacity
  cursor : b.cursor ≤ lineCapacity
  held : lineFeed ∉ b.pending

/-- An empty buffer has its cursor within the cells. -/
theorem well_formed_empty : empty.WellFormed :=
  ⟨by simp [empty], by simp [empty], by simp [empty, pending]⟩

/-- An empty buffer holds no byte. -/
@[simp] theorem pending_empty : empty.pending = [] := by
  simp [empty, pending]

namespace WellFormed

variable {b : LineBuffer}

/-- As many bytes are held as lie in front of the cursor. -/
theorem length_pending (h : b.WellFormed) : b.pending.length = b.cursor := by
  have := h.cells
  have := h.cursor
  simp only [pending, List.length_take]
  omega

/-- As many cells are spare as lie behind the cursor. -/
theorem length_spare (h : b.WellFormed) : b.spare.length = b.remaining := by
  simp [spare, remaining, h.cells]

/-- The cells are the bytes held and the cells behind them. -/
theorem room (h : b.WellFormed) : b.pending.length + b.remaining = lineCapacity := by
  have := h.cursor
  rw [h.length_pending, remaining]
  omega

/-- A buffer is full when it holds as many bytes as it has cells. -/
theorem is_full_iff (h : b.WellFormed) :
    b.isFull = true ↔ b.pending.length = lineCapacity := by
  have := h.room
  simp only [isFull, decide_eq_true_eq]
  omega

end WellFormed

/-- A write leaves the bytes held as they are. -/
theorem pending_write {b : LineBuffer} (h : b.WellFormed) (bytes : List UInt8) :
    (b.write bytes).pending = b.pending := by
  show (b.pending ++ _ ++ _).take b.cursor = b.pending
  rw [List.append_assoc, List.take_left' h.length_pending]

/-- Bytes for which there is room stand behind the cursor once they are written. -/
theorem spare_write {b : LineBuffer} (h : b.WellFormed) (bytes : List UInt8)
    (hroom : bytes.length ≤ b.remaining) :
    (b.write bytes).spare = bytes ++ b.spare.drop bytes.length := by
  show (b.pending ++ _ ++ _).drop b.cursor = _
  rw [List.append_assoc, List.drop_left' h.length_pending, List.take_of_length_le hroom]

/-- A write fills cells and makes none. -/
theorem length_cells_write {b : LineBuffer} (h : b.WellFormed) (bytes : List UInt8) :
    (b.write bytes).cells.length = lineCapacity := by
  have hroom := h.room
  have hspare := h.length_spare
  show (b.pending ++ _ ++ _).length = lineCapacity
  simp only [List.length_append, List.length_drop, List.length_take]
  omega

/-- Writing leaves the cursor within the cells. -/
theorem WellFormed.write {b : LineBuffer} (h : b.WellFormed) (bytes : List UInt8) :
    (b.write bytes).WellFormed :=
  ⟨length_cells_write h bytes, h.cursor, by rw [pending_write h]; exact h.held⟩

/-- A commit leaves the bytes behind the last line feed among those held and those committed. -/
theorem pending_commit (b : LineBuffer) (n : Nat) :
    (b.commit n).1.pending = (cut b.pending (b.spare.take (min n b.remaining))).2 :=
  List.take_left

/-- A commit keeps a buffer well formed, however many bytes it is told of. -/
theorem WellFormed.commit {b : LineBuffer} (h : b.WellFormed) (n : Nat) :
    (b.commit n).1.WellFormed := by
  have hroom := h.room
  have hspare := h.length_spare
  have hlength := length_cut_le b.pending (b.spare.take (min n b.remaining))
  rw [List.length_take] at hlength
  refine ⟨?_, ?_, ?_⟩
  · rw [LineBuffer.commit, List.length_append, List.length_drop, h.cells]
    omega
  · rw [LineBuffer.commit]
    dsimp only
    omega
  · rw [pending_commit]
    exact line_feed_not_mem_cut _ _ h.held

/-- Committing bytes just written behind the cursor, for which there is room, cuts them. -/
theorem commit_write {b : LineBuffer} (h : b.WellFormed) (bytes : List UInt8)
    (hroom : bytes.length ≤ b.remaining) :
    ((b.write bytes).commit bytes.length).1.pending = (cut b.pending bytes).2 ∧
      ((b.write bytes).commit bytes.length).2 =
        cutNotices (cut b.pending bytes).1 (cut b.pending bytes).2 := by
  have htaken :
      (b.write bytes).spare.take (min bytes.length (b.write bytes).remaining) = bytes := by
    have : (b.write bytes).remaining = b.remaining := rfl
    rw [this, Nat.min_eq_left hroom, spare_write h bytes hroom, List.take_left]
  constructor
  · rw [pending_commit, htaken, pending_write h]
  · rw [LineBuffer.commit, htaken, pending_write h]

/-- Committing bytes just written, for which there is room, makes the steps of the automaton. -/
theorem commit_write_take_bytes {b : LineBuffer} (h : b.WellFormed) (bytes : List UInt8)
    (hroom : bytes.length ≤ b.remaining) :
    ((b.write bytes).commit bytes.length).1.pending = (takeBytes b.pending bytes).1 ∧
      LineNotice.outcomes ((b.write bytes).commit bytes.length).2 =
        (takeBytes b.pending bytes).2 := by
  obtain ⟨hpending, hnotices⟩ := commit_write h bytes hroom
  have hcut := take_bytes_of_room b.pending bytes (by have := h.room; omega)
  rw [hpending, hnotices, outcomes_cut_notices, hcut]
  exact ⟨rfl, rfl⟩

/-- Making room keeps a buffer well formed. -/
theorem WellFormed.make_room {b : LineBuffer} (h : b.WellFormed) : b.makeRoom.1.WellFormed := by
  unfold makeRoom
  split
  · exact well_formed_empty
  · exact h

/-- Making room in front of bytes is a step of the automaton that their first one makes. -/
theorem take_bytes_make_room {b : LineBuffer} (h : b.WellFormed) (bytes : List UInt8)
    (hbytes : bytes ≠ []) :
    takeBytes b.pending bytes =
      ((takeBytes b.makeRoom.1.pending bytes).1,
        b.makeRoom.2 ++ (takeBytes b.makeRoom.1.pending bytes).2) := by
  unfold makeRoom
  split
  · next hfull =>
      rw [take_bytes_of_full _ (h.is_full_iff.1 hfull) bytes hbytes]
      simp
  · simp

/-- A feed makes the steps of the automaton on bytes. -/
theorem feed_take_bytes {b : LineBuffer} (h : b.WellFormed) (chunk : List UInt8) :
    (b.feed chunk).1.WellFormed ∧
      (b.feed chunk).1.pending = (takeBytes b.pending chunk).1 ∧
      LineNotice.outcomes (b.feed chunk).2 = (takeBytes b.pending chunk).2 := by
  induction b, chunk using feed.induct with
  | case1 b =>
      rw [feed]
      exact ⟨h, rfl, rfl⟩
  | case2 b chunk hchunk room n taken ih =>
      have hroom := h.make_room
      have hlength : (chunk.take n).length = n := by
        simp only [List.length_take, n]
        omega
      have hfits : (chunk.take n).length ≤ room.1.remaining := by
        rw [hlength]
        exact Nat.min_le_right _ _
      have hwell : taken.1.WellFormed := (hroom.write _).commit _
      obtain ⟨hpending, hnotices⟩ := commit_write_take_bytes hroom (chunk.take n) hfits
      rw [hlength] at hpending hnotices
      -- behind the first `n` bytes the buffer is well formed again, and the rest is fed to it
      obtain ⟨hlast, hlater, htold⟩ := ih hwell
      have hsteps := take_bytes_make_room h chunk hchunk
      have hcut := take_bytes_append room.1.pending (chunk.take n) (chunk.drop n)
      rw [List.take_append_drop] at hcut
      rw [hcut, ← hpending, ← hlater, ← hnotices, ← htold] at hsteps
      have hroomTold : LineNotice.outcomes room.2 = room.2 := by
        simp only [room, makeRoom]
        split <;> rfl
      rw [feed, dif_neg hchunk, hsteps]
      exact ⟨hlast, rfl, by simp [hroomTold, room, n, taken]⟩

end LineBuffer

/-! ## Closed form -/

/-- The bytes that a buffer holds behind these bytes of a line: the last block of 256, which is
complete when their number is a multiple of 256. -/
def heldOf (line : List UInt8) : List UInt8 :=
  line.rtake ((line.length - 1) % lineCapacity + 1)

/-- The message of a line that ended: the bytes behind its last complete block of 256, if there
are any. -/
def lineMessage? (line : List UInt8) : Option String :=
  if line.length % lineCapacity = 0 then none
  else some (Text.lossy (line.rtake (line.length % lineCapacity)))

/-- Of an empty line nothing is held. -/
@[simp] theorem held_of_nil : heldOf [] = [] := rfl

/-- The bytes held start at a multiple of 256. -/
theorem held_of_eq_drop (line : List UInt8) :
    heldOf line = line.drop ((line.length - 1) / lineCapacity * lineCapacity) := by
  have := Nat.div_add_mod (line.length - 1) lineCapacity
  rw [Nat.mul_comm] at this
  cases line with
  | nil => simp
  | cons b rest =>
      rw [heldOf, List.rtake]
      congr 1
      simp only [List.length_cons] at *
      omega

/-- Of a line that is not empty one byte up to a full buffer is held, as many as there are behind
the buffers that were full before. -/
theorem length_held_of (line : List UInt8) (hline : line ≠ []) :
    (heldOf line).length = (line.length - 1) % lineCapacity + 1 := by
  have := Nat.mod_le (line.length - 1) lineCapacity
  have := List.length_pos_iff.2 hline
  simp only [heldOf, List.rtake, List.length_drop]
  omega

/-- The bytes held fill the buffer behind every complete block. -/
theorem length_held_of_eq_capacity_iff (line : List UInt8) :
    (heldOf line).length = lineCapacity ↔ line ≠ [] ∧ line.length % lineCapacity = 0 := by
  by_cases hline : line = []
  · simp [hline, lineCapacity]
  · have := List.length_pos_iff.2 hline
    simp only [length_held_of line hline, hline, lineCapacity, ne_eq, not_false_eq_true, true_and]
    omega

/-- What is told of the buffer when another byte comes behind these bytes of a line. -/
def dumpsBehind (line : List UInt8) : List LineNotice :=
  if line ≠ [] ∧ line.length % lineCapacity = 0 then [.dumped] else []

/-- One more byte completes the last block, or starts a new one. -/
theorem held_of_append (line : List UInt8) (b : UInt8) :
    heldOf (line ++ [b]) =
      if line ≠ [] ∧ line.length % lineCapacity = 0 then [b] else heldOf line ++ [b] := by
  rw [held_of_eq_drop, List.length_append, List.length_singleton, Nat.add_sub_cancel]
  split
  · next hfull =>
      have hlength : line.length / lineCapacity * lineCapacity = line.length := by
        have := Nat.div_add_mod line.length lineCapacity
        rw [Nat.mul_comm]
        omega
      rw [hlength, List.drop_left]
  · next hopen =>
      have hblock : (line.length - 1) / lineCapacity = line.length / lineCapacity := by
        by_cases hline : line = []
        · simp [hline]
        · have := List.length_pos_iff.2 hline
          have : line.length % lineCapacity ≠ 0 := fun h => hopen ⟨hline, h⟩
          simp only [lineCapacity] at *
          omega
      have hle : line.length / lineCapacity * lineCapacity ≤ line.length := Nat.div_mul_le_self _ _
      rw [held_of_eq_drop, hblock, List.drop_append_of_le_length hle]

/-- A byte of a line takes the bytes held to those held with it. -/
theorem take_byte_held_of (line : List UInt8) (b : UInt8) (hb : b ≠ lineFeed) :
    takeByte (heldOf line) b = (heldOf (line ++ [b]), dumpsBehind line) := by
  have hfull := length_held_of_eq_capacity_iff line
  rw [held_of_append, dumpsBehind]
  by_cases hcase : line ≠ [] ∧ line.length % lineCapacity = 0
  · simp [takeByte, hfull.2 hcase, hb, hcase]
  · simp [takeByte, hfull, hcase, hb]

/-- The end of a line gives its message. -/
theorem take_byte_line_feed (line : List UInt8) :
    takeByte (heldOf line) lineFeed =
      ([], dumpsBehind line ++ (lineMessage? line).toList.map .message) := by
  have hfull := length_held_of_eq_capacity_iff line
  by_cases hcase : line ≠ [] ∧ line.length % lineCapacity = 0
  · simp [takeByte, hfull.2 hcase, dumpsBehind, hcase, endLine, lineMessage?]
  · simp only [takeByte, hfull, hcase, dumpsBehind, if_true, if_false, List.nil_append]
    by_cases hline : line = []
    · simp [hline, endLine, lineMessage?]
    · -- the last block is not complete, and its bytes are the message
      have hopen : line.length % lineCapacity ≠ 0 := fun h => hcase ⟨hline, h⟩
      have hheld : heldOf line = line.rtake (line.length % lineCapacity) := by
        have := List.length_pos_iff.2 hline
        rw [heldOf]
        congr 1
        simp only [lineCapacity] at *
        omega
      have hne : heldOf line ≠ [] := by
        intro h
        have := length_held_of line hline
        simp [h] at this
      rw [hheld] at hne ⊢
      simp [endLine, hne, lineMessage?, hopen]

/-- The bytes before a byte of a line cost one dump for each complete block of them. -/
theorem dumps_behind (line : List UInt8) :
    (line.length - 1) / lineCapacity + LineNotice.dumps (dumpsBehind line) =
      line.length / lineCapacity := by
  by_cases hline : line = []
  · simp [hline, dumpsBehind]
  · have hlength := List.length_pos_iff.2 hline
    by_cases hblock : line.length % lineCapacity = 0
    · have hdump : LineNotice.dumps (dumpsBehind line) = 1 := by
        simp [dumpsBehind, hline, hblock, LineNotice.dumps]
      rw [hdump]
      simp only [lineCapacity] at *
      omega
    · have hnone : LineNotice.dumps (dumpsBehind line) = 0 := by
        simp [dumpsBehind, hblock]
      rw [hnone]
      simp only [lineCapacity] at *
      omega

/-- Dumps are no messages. -/
@[simp] theorem messages_dumps_behind (line : List UInt8) :
    LineNotice.messages (dumpsBehind line) = [] := by
  unfold dumpsBehind
  split <;> rfl

/-- What a line buffer makes of bytes behind those of an unfinished line: the messages of the
lines that end in them, a dump for every complete block of such a line, and the bytes held of the
line that does not end. -/
theorem take_bytes_held_of (line bytes : List UInt8) :
    (takeBytes (heldOf line) bytes).1 = heldOf (cut line bytes).2 ∧
      LineNotice.messages (takeBytes (heldOf line) bytes).2 =
        (cut line bytes).1.filterMap lineMessage? ∧
      (line.length - 1) / lineCapacity + LineNotice.dumps (takeBytes (heldOf line) bytes).2 =
        ((cut line bytes).1.map fun ended => ended.length / lineCapacity).sum +
          ((cut line bytes).2.length - 1) / lineCapacity := by
  -- a byte makes the line longer, a line feed ends it and starts the next one with no bytes
  induction bytes generalizing line with
  | nil => simp [takeBytes, cut]
  | cons b rest ih =>
      by_cases hb : b = lineFeed
      · subst hb
        obtain ⟨hheld, hmessages, hdumps⟩ := ih []
        have hblocks := dumps_behind line
        have hquiet : LineNotice.dumps ((lineMessage? line).toList.map .message) = 0 := by
          cases lineMessage? line <;> simp [LineNotice.dumps]
        simp only [held_of_nil] at hheld hmessages hdumps
        simp only [takeBytes, take_byte_line_feed, cut, if_true, LineNotice.messages_append,
          LineNotice.dumps_append, messages_dumps_behind, hquiet, List.map_cons, List.sum_cons]
        refine ⟨hheld, ?_, by simp at hdumps; omega⟩
        cases hmessage : lineMessage? line <;> simp [hmessage, hmessages]
      · obtain ⟨hheld, hmessages, hdumps⟩ := ih (line ++ [b])
        have hblocks := dumps_behind line
        simp only [takeBytes, take_byte_held_of line b hb, cut, hb, if_false,
          LineNotice.messages_append, LineNotice.dumps_append, messages_dumps_behind]
        refine ⟨hheld, by simpa using hmessages, ?_⟩
        simp only [List.length_append, List.length_singleton, Nat.add_sub_cancel] at hdumps
        omega

/-! ## Feeding a new buffer -/

/-- What can be seen of a new buffer that is fed with a stream. -/
structure FeedOutcome where
  /-- The messages, in order. -/
  messages : List String
  /-- The sum of the messages that the feeds count. -/
  counted : Nat
  /-- The sum of the dumps that the feeds count. -/
  overflows : Nat
  /-- The bytes held at the end. -/
  pending : List UInt8

namespace FeedOutcome

/-- What is seen when a new buffer is fed with chunks, one after another. -/
def ofChunks (chunks : List (List UInt8)) : FeedOutcome :=
  let run := LineBuffer.empty.feedAll chunks
  let stats := LineBuffer.empty.feedStats chunks
  { messages := LineNotice.messages run.2
    counted := (stats.map FeedStats.messages).sum
    overflows := (stats.map FeedStats.overflows).sum
    pending := run.1.pending }

/-- What a stream must show: each ended line gives its bytes behind the last complete block of
256 as a message, if there are any, every complete block costs a dump, except that the last block
of the line that has not ended is still held. -/
def ofStream (stream : List UInt8) : FeedOutcome :=
  let lines := endedLines stream
  let tail := openLine stream
  { messages := lines.filterMap lineMessage?
    counted := (lines.filterMap lineMessage?).length
    overflows :=
      (lines.map fun line => line.length / lineCapacity).sum + (tail.length - 1) / lineCapacity
    pending := tail.rtake ((tail.length - 1) % lineCapacity + 1) }

end FeedOutcome

namespace LineBuffer

/-- Feeding chunks is taking the bytes of all of them. -/
theorem feed_all_take_bytes {b : LineBuffer} (h : b.WellFormed) (chunks : List (List UInt8)) :
    (b.feedAll chunks).1.WellFormed ∧
      (b.feedAll chunks).1.pending = (takeBytes b.pending chunks.flatten).1 ∧
      LineNotice.outcomes (b.feedAll chunks).2 = (takeBytes b.pending chunks.flatten).2 := by
  induction chunks generalizing b with
  | nil => exact ⟨h, rfl, rfl⟩
  | cons chunk chunks ih =>
      obtain ⟨hfirst, hpending, hnotices⟩ := feed_take_bytes h chunk
      obtain ⟨hlast, hlater, htold⟩ := ih hfirst
      rw [List.flatten_cons, take_bytes_append, ← hpending, ← hlater, ← hnotices, ← htold]
      exact ⟨hlast, rfl, by simp [feedAll]⟩

/-- The feeds together count the notices of the whole run. -/
theorem sum_feed_stats (b : LineBuffer) (chunks : List (List UInt8)) :
    ((b.feedStats chunks).map FeedStats.messages).sum =
        (LineNotice.messages (b.feedAll chunks).2).length ∧
      ((b.feedStats chunks).map FeedStats.overflows).sum =
        LineNotice.dumps (b.feedAll chunks).2 := by
  induction chunks generalizing b with
  | nil => simp [feedStats, feedAll]
  | cons chunk chunks ih =>
      obtain ⟨hmessages, hdumps⟩ := ih (b.feed chunk).1
      simp [feedStats, feedAll, FeedStats.ofNotices, hmessages, hdumps]

end LineBuffer

/-- What can be seen of a new buffer depends on the stream alone, and not on where it is cut into
chunks. -/
theorem outcome_of_chunks (chunks : List (List UInt8)) :
    FeedOutcome.ofChunks chunks = FeedOutcome.ofStream chunks.flatten := by
  obtain ⟨_, hpending, hnotices⟩ :=
    LineBuffer.feed_all_take_bytes LineBuffer.well_formed_empty chunks
  obtain ⟨hcounted, hoverflows⟩ := LineBuffer.sum_feed_stats .empty chunks
  obtain ⟨hheld, hmessages, hdumps⟩ := take_bytes_held_of [] chunks.flatten
  rw [LineBuffer.pending_empty] at hpending hnotices
  rw [held_of_nil, ← hpending, ← open_line_eq_cut] at hheld
  rw [held_of_nil, ← hnotices, LineNotice.messages_outcomes, ← ended_lines_eq_cut] at hmessages
  rw [held_of_nil, ← hnotices, LineNotice.dumps_outcomes, ← ended_lines_eq_cut,
    ← open_line_eq_cut] at hdumps
  simp only [FeedOutcome.ofChunks, FeedOutcome.ofStream, hcounted, hoverflows, hmessages, hheld,
    heldOf, FeedOutcome.mk.injEq, true_and, and_true]
  simpa using hdumps

end EngineLink
