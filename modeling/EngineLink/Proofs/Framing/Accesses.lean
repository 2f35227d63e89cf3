import EngineLink.Proofs.Framing.LineStream
import Mathlib.Data.Nat.PSub

/-!
# The accesses of a line buffer

The operations of a line buffer made of single accesses to its cells, each of which fails if it
goes beyond the cells, as a difference does that would fall below zero. From a new buffer on no
access ever fails, whatever operations are mixed, and the operations do what the buffer does.

Read `Scan.look`, `commitByAccess` and `feedByAccess` first, then `Made.Agrees`; `Scan.Covers` is
what holds behind each cell of a scan.
-/

namespace EngineLink

namespace LineBuffer

/-- The cells from the place `start` up to the place `stop`, if these are places in this order. -/
def slice? (cells : List UInt8) (start stop : Nat) : Option (List UInt8) :=
  if start ≤ stop ∧ stop ≤ cells.length then some ((cells.take stop).drop start) else none

/-- The cells with bytes from a place on, if there are cells for all of them. -/
def overwrite? (cells : List UInt8) (place : Nat) (bytes : List UInt8) : Option (List UInt8) :=
  if place + bytes.length ≤ cells.length then
    some (cells.take place ++ bytes ++ cells.drop (place + bytes.length))
  else none

/-- Where a message was taken from: the cells of the buffer at that time, and the places from
which and up to which its bytes stood in them. -/
structure Extract where
  cells : List UInt8
  start : Nat
  stop : Nat
  bytes : List UInt8

/-- The message of the bytes. -/
def Extract.text (e : Extract) : String :=
  Text.lossy e.bytes

/-- A scan for line feeds: the place at which the next message starts, and the messages counted
and taken so far. -/
structure Scan where
  start : Nat
  counted : Nat
  extracts : List Extract

/-- Looks at one cell. A line feed ends the message before it, if that has a byte. -/
def Scan.look (cells : List UInt8) (s : Scan) (place : Nat) : Option Scan := do
  let b ← cells[place]?
  if b ≠ lineFeed then return s
  if s.start < place then
    let bytes ← slice? cells s.start place
    return ⟨place + 1, s.counted + 1, s.extracts ++ [⟨cells, s.start, place, bytes⟩]⟩
  else return { s with start := place + 1 }

/-- What an operation comes to that is made of single accesses. -/
structure Made where
  buffer : LineBuffer
  stats : FeedStats
  extracts : List Extract

/-- A commit: the new cells are scanned, and what is left behind the last line feed is moved to
the front. -/
def commitByAccess (b : LineBuffer) (n : Nat) : Option Made := do
  let room ← lineCapacity.psub b.cursor
  let stop := b.cursor + min n room
  let s ← (List.range' b.cursor (min n room)).foldlM (Scan.look b.cells) ⟨0, 0, []⟩
  if s.start = 0 then return ⟨⟨b.cells, stop⟩, ⟨s.counted, 0⟩, s.extracts⟩
  else
    let left ← stop.psub s.start
    let moved ← slice? b.cells s.start stop
    let cells ← overwrite? b.cells 0 moved
    return ⟨⟨cells, left⟩, ⟨s.counted, 0⟩, s.extracts⟩

/-- One piece of a feed, and the rest of the chunk. -/
def feedPiece (b : LineBuffer) (chunk : List UInt8) : Option (Made × List UInt8) := do
  let (held, dumps) := if b.cursor = lineCapacity then (empty, 1) else (b, 0)
  let room ← lineCapacity.psub held.cursor
  let n := min chunk.length room
  let piece ← slice? chunk 0 n
  let cells ← overwrite? held.cells held.cursor piece
  let taken ← commitByAccess ⟨cells, held.cursor⟩ n
  let rest ← slice? chunk n chunk.length
  return (⟨taken.buffer, ⟨taken.stats.messages, dumps⟩, taken.extracts⟩, rest)

/-- Two operations one behind the other. -/
def Made.and (first later : Made) : Made :=
  ⟨later.buffer, ⟨first.stats.messages + later.stats.messages,
    first.stats.overflows + later.stats.overflows⟩, first.extracts ++ later.extracts⟩

/-- A write of bytes behind the first `skip` cells behind the cursor, as many as fit. -/
def writeByAccess (b : LineBuffer) (skip : Nat) (bytes : List UInt8) : Option Made := do
  let spare ← slice? b.cells b.cursor b.cells.length
  let cells ← overwrite? b.cells b.cursor ((spare.take skip ++ bytes).take spare.length)
  return ⟨⟨cells, b.cursor⟩, ⟨0, 0⟩, []⟩

/-- Cells are sliced exactly between two places of theirs that are in order. -/
theorem slice_eq_some_iff {cells : List UInt8} {start stop : Nat} {bytes : List UInt8} :
    slice? cells start stop = some bytes ↔
      (start ≤ stop ∧ stop ≤ cells.length) ∧ (cells.take stop).drop start = bytes := by
  rw [slice?, Option.ite_none_right_eq_some, Option.some.injEq]

/-- A slice has as many cells as lie between its places. -/
theorem length_of_slice {cells : List UInt8} {start stop : Nat} {bytes : List UInt8}
    (h : slice? cells start stop = some bytes) : start + bytes.length = stop := by
  obtain ⟨hplaces, rfl⟩ := slice_eq_some_iff.1 h
  rw [List.length_drop, List.length_take]
  omega

/-- A piece of a feed takes at least one byte of the chunk. -/
theorem length_of_feed_piece {b : LineBuffer} {chunk : List UInt8} (hchunk : chunk ≠ [])
    {piece : Made × List UInt8} (h : feedPiece b chunk = some piece) :
    piece.2.length < chunk.length := by
  simp only [feedPiece, Option.bind_eq_bind, Option.bind_eq_some_iff, Nat.psub_eq_some,
    Option.pure_def, Option.some.injEq] at h
  obtain ⟨room, hroom, _, _, _, _, _, _, rest, hrest, rfl⟩ := h
  have hbytes := List.length_pos_iff.2 hchunk
  have hlength := length_of_slice hrest
  have hpos : room ≠ 0 := by
    rintro rfl
    split at hroom
    · exact absurd hroom (by decide)
    · next hopen => exact hopen ((Nat.zero_add _).symm.trans hroom)
  dsimp only
  omega

/-- A feed, piece by piece. -/
def feedByAccess (b : LineBuffer) (chunk : List UInt8) : Option Made :=
  if _hchunk : chunk = [] then some ⟨b, ⟨0, 0⟩, []⟩
  else
    match _hpiece : feedPiece b chunk with
    | none => none
    | some (first, rest) => (feedByAccess first.buffer rest).map first.and
termination_by chunk.length
decreasing_by exact length_of_feed_piece _hchunk _hpiece

/-! ## A scan ends the pieces of a cut -/

/-- A message stood in the cells of a buffer: it has 1 to 255 bytes, which lie one behind the other
in the cells, and none of them is a line feed. -/
structure Extract.Sound (e : Extract) : Prop where
  cells : e.cells.length = lineCapacity
  within : slice? e.cells e.start e.stop = some e.bytes
  length_pos : 1 ≤ e.bytes.length
  length_le : e.bytes.length ≤ 255
  open_bytes : lineFeed ∉ e.bytes

/-- What a scan of the cells behind a cursor holds when it has looked at some of them. -/
structure Scan.Covers (s : Scan) (cells : List UInt8) (cursor looked : Nat) : Prop where
  start_le : s.start ≤ cursor + looked
  /-- The cells from the start on are what a cut leaves. -/
  tail : (cells.take (cursor + looked)).drop s.start =
    (cut (cells.take cursor) ((cells.drop cursor).take looked)).2
  /-- Each piece of the cut that has a byte was taken. -/
  pieces : s.extracts.map Extract.bytes =
    (cut (cells.take cursor) ((cells.drop cursor).take looked)).1.filter (· ≠ [])
  start_zero : s.start = 0 ↔ (cut (cells.take cursor) ((cells.drop cursor).take looked)).1 = []
  counted : s.counted = s.extracts.length
  sound : ∀ e ∈ s.extracts, e.Sound

section
variable {cells : List UInt8} {s : Scan} {place : Nat}

/-- A byte that is no line feed leaves the scan as it is. -/
theorem look_of_byte {b : UInt8} (h : cells[place]? = some b) (hb : b ≠ lineFeed) :
    s.look cells place = some s := by
  simp [Scan.look, h, hb]

/-- A line feed behind bytes takes them as a message, and the next one starts behind it. -/
theorem look_of_message (h : cells[place]? = some lineFeed) (hstart : s.start < place)
    {bytes : List UInt8} (hbytes : slice? cells s.start place = some bytes) :
    s.look cells place =
      some ⟨place + 1, s.counted + 1, s.extracts ++ [⟨cells, s.start, place, bytes⟩]⟩ := by
  simp [Scan.look, h, hstart, hbytes]

/-- A line feed with no byte in front of it moves the start behind it. -/
theorem look_of_empty_line (h : cells[place]? = some lineFeed) (hstart : ¬ s.start < place) :
    s.look cells place = some { s with start := place + 1 } := by
  simp [Scan.look, h, hstart]

end

/-- One more cell lies behind those looked at. -/
theorem take_next {cells : List UInt8} {cursor looked : Nat} {b : UInt8}
    (hcell : cells[cursor + looked]? = some b) :
    cells.take (cursor + (looked + 1)) = cells.take (cursor + looked) ++ [b] := by
  rw [← Nat.add_assoc, List.take_add_one, hcell, Option.toList_some]

/-- What one more cell makes of a cut. -/
theorem cut_next {cells : List UInt8} {cursor looked : Nat} {b : UInt8}
    (hcell : cells[cursor + looked]? = some b) :
    cut (cells.take cursor) ((cells.drop cursor).take (looked + 1)) =
      let before := cut (cells.take cursor) ((cells.drop cursor).take looked)
      if b = lineFeed then (before.1 ++ [before.2], []) else (before.1, before.2 ++ [b]) := by
  rw [List.take_add_one, List.getElem?_drop, hcell, Option.toList_some, cut_append, cut]
  split
  · rfl
  · rw [cut, List.append_nil]

section
variable {cells : List UInt8} {cursor looked : Nat} (hcells : cells.length = lineCapacity)
  (hheld : lineFeed ∉ cells.take cursor)
include hcells hheld

/-- One more cell: a line feed ends the piece in front of it, any other byte makes it longer. -/
theorem Scan.Covers.look {s : Scan} (h : s.Covers cells cursor looked)
    (hplace : cursor + looked < cells.length) :
    ∃ t, s.look cells (cursor + looked) = some t ∧ t.Covers cells cursor (looked + 1) := by
  obtain ⟨b, hcell⟩ : ∃ b, cells[cursor + looked]? = some b :=
    ⟨_, List.getElem?_eq_getElem hplace⟩
  obtain ⟨bytes, hbytes⟩ : ∃ bytes, slice? cells s.start (cursor + looked) = some bytes :=
    ⟨_, slice_eq_some_iff.2 ⟨⟨h.start_le, hplace.le⟩, rfl⟩⟩
  have hlength := length_of_slice hbytes
  -- the bytes since the start are what the cut of the cells before leaves
  have htail := (slice_eq_some_iff.1 hbytes).2.symm.trans h.tail
  have hopen : lineFeed ∉ bytes := htail ▸ line_feed_not_mem_cut _ _ hheld
  have htake := take_next hcell
  have hcut := cut_next hcell
  dsimp only at hcut
  rw [← htail] at hcut
  by_cases hb : b = lineFeed
  · subst hb
    rw [if_pos rfl] at hcut
    have hnothing : (cells.take (cursor + (looked + 1))).drop (cursor + looked + 1) = [] :=
      List.drop_eq_nil_of_le (List.length_take_le _ _)
    rcases h.start_le.lt_or_eq with hless | hsame
    · refine ⟨_, look_of_message hcell hless hbytes, ?_⟩
      rw [hcells, lineCapacity] at hplace
      have hpos : 1 ≤ bytes.length := by omega
      have hmade : Extract.Sound ⟨cells, s.start, cursor + looked, bytes⟩ :=
        ⟨hcells, hbytes, hpos, by dsimp only; omega, hopen⟩
      refine ⟨le_rfl, by rw [hcut, hnothing], ?_, ?_, ?_, ?_⟩
      · rw [hcut, List.map_append, h.pieces, List.filter_append]
        congr 1
        simp [List.length_pos_iff.1 hpos]
      · rw [hcut]
        simp
      · rw [List.length_append, List.length_singleton, h.counted]
      · simpa [or_imp, forall_and] using ⟨h.sound, hmade⟩
    · refine ⟨_, look_of_empty_line hcell hsame.not_lt, ?_⟩
      obtain rfl : bytes = [] := List.eq_nil_of_length_eq_zero (by omega)
      refine ⟨le_rfl, by rw [hcut, hnothing], ?_, ?_, h.counted, h.sound⟩
      · rw [hcut, List.filter_append, h.pieces]
        simp
      · rw [hcut]
        simp
  · refine ⟨s, look_of_byte hcell hb, ?_⟩
    rw [if_neg hb] at hcut
    have hstart : s.start ≤ (cells.take (cursor + looked)).length := by
      rw [List.length_take_of_le hplace.le]
      exact h.start_le
    refine ⟨h.start_le.trans (Nat.le_succ _), ?_, ?_, ?_, h.counted, h.sound⟩
    · rw [hcut, htake, List.drop_append_of_le_length hstart, (slice_eq_some_iff.1 hbytes).2]
    · rw [hcut]
      exact h.pieces
    · rw [hcut]
      exact h.start_zero

/-- A scan of cells that are there looks at each of them. -/
theorem scan_covers (n : Nat) (hn : cursor + n ≤ cells.length) :
    ∃ s, (List.range' cursor n).foldlM (Scan.look cells) ⟨0, 0, []⟩ = some s ∧
      s.Covers cells cursor n := by
  induction n with
  | zero =>
      refine ⟨⟨0, 0, []⟩, rfl, Nat.zero_le _, ?_, rfl, by simp [cut], rfl, by simp⟩
      rw [List.take_zero, cut, Nat.add_zero, List.drop_zero]
  | succ n ih =>
      obtain ⟨s, hscan, hcovers⟩ := ih (by omega)
      obtain ⟨t, hlook, hnext⟩ := hcovers.look hcells hheld (by omega)
      refine ⟨t, ?_, hnext⟩
      rw [List.range'_1_concat, List.foldlM_append, hscan]
      simpa using hlook

end

/-! ## The operations do what the buffer does -/

/-- An operation made of single accesses comes to the same buffer as another, counts what that
tells, and its messages, which are those of the other, stood in the cells. -/
structure Made.Agrees (made : Made) (told : LineBuffer × List LineNotice) : Prop where
  buffer : made.buffer = told.1
  stats : made.stats = .ofNotices told.2
  texts : made.extracts.map Extract.text = LineNotice.messages told.2
  sound : ∀ e ∈ made.extracts, e.Sound

/-- The messages of a cut are the texts of its pieces that are not empty. -/
theorem messages_cut_notices (pieces : List (List UInt8)) (tail : List UInt8) :
    LineNotice.messages (cutNotices pieces tail) = (pieces.filter (· ≠ [])).map Text.lossy := by
  rw [cutNotices, LineNotice.messages_append]
  have htail : LineNotice.messages
      (if pieces ≠ [] ∧ tail ≠ [] then [.kept tail.length] else []) = [] := by
    split <;> rfl
  rw [htail, List.append_nil, LineNotice.messages, List.filterMap_map]
  exact congrFun List.filterMap_eq_map _

/-- A cut discards nothing. -/
theorem dumps_cut_notices (pieces : List (List UInt8)) (tail : List UInt8) :
    LineNotice.dumps (cutNotices pieces tail) = 0 := by
  rw [LineNotice.dumps, List.count_eq_zero, cutNotices]
  split <;> simp

/-- Making room ends no message. -/
theorem messages_make_room (b : LineBuffer) : LineNotice.messages b.makeRoom.2 = [] := by
  rw [makeRoom]
  split <;> rfl

/-- One operation behind another does what the two tell one behind the other. -/
theorem Made.Agrees.and {first later : Made} {told : LineBuffer × List LineNotice}
    {laterTold : LineBuffer × List LineNotice} (h : first.Agrees told)
    (hlater : later.Agrees laterTold) :
    (first.and later).Agrees (laterTold.1, told.2 ++ laterTold.2) where
  buffer := hlater.buffer
  stats := by
    simp [Made.and, h.stats, hlater.stats, FeedStats.ofNotices]
  texts := by rw [Made.and, List.map_append, h.texts, hlater.texts, LineNotice.messages_append]
  sound := by
    simpa [Made.and, or_imp, forall_and] using ⟨h.sound, hlater.sound⟩

namespace WellFormed

variable {b : LineBuffer} (h : b.WellFormed)
include h

/-- The cursor is subtracted from the number of cells without going below zero. -/
theorem psub_cursor : lineCapacity.psub b.cursor = some b.remaining :=
  Nat.psub_eq_some.2 (Nat.sub_add_cancel h.cursor)

/-- A commit makes no access beyond the cells, however many bytes it is told of. -/
theorem commit_by_access (n : Nat) :
    ∃ made, commitByAccess b n = some made ∧ made.Agrees (b.commit n) := by
  have hcursor := h.cursor
  have hroom : b.cursor + min n b.remaining ≤ b.cells.length := by
    rw [h.cells, remaining]
    omega
  obtain ⟨s, hscan, hcovers⟩ := scan_covers h.cells h.held (min n b.remaining) hroom
  obtain ⟨tail, htail⟩ :
      ∃ tail, slice? b.cells s.start (b.cursor + min n b.remaining) = some tail :=
    ⟨_, slice_eq_some_iff.2 ⟨⟨hcovers.start_le, hroom⟩, rfl⟩⟩
  have htailLength := length_of_slice htail
  -- what the scan leaves is the tail of the commit's cut
  have hcut := hcovers.tail
  rw [(slice_eq_some_iff.1 htail).2] at hcut
  have hnotices : s.extracts.map Extract.text = LineNotice.messages (b.commit n).2 := by
    rw [LineBuffer.commit, messages_cut_notices]
    exact (List.map_map).symm.trans (congrArg (List.map Text.lossy) hcovers.pieces)
  have hstats : (⟨s.counted, 0⟩ : FeedStats) = .ofNotices (b.commit n).2 := by
    rw [FeedStats.ofNotices, ← hnotices, List.length_map, hcovers.counted]
    exact congrArg _ (dumps_cut_notices _ _).symm
  have hbuffer : (b.commit n).1 = ⟨tail ++ b.cells.drop tail.length, tail.length⟩ := by
    rw [hcut]
    rfl
  rw [commitByAccess, h.psub_cursor, Option.bind_eq_bind, Option.bind_some]
  dsimp only
  rw [hscan]
  by_cases hstart : s.start = 0
  · refine ⟨_, if_pos hstart, ?_, hstats, hnotices, hcovers.sound⟩
    rw [hstart, Nat.zero_add] at htailLength
    have hcells := (slice_eq_some_iff.1 htail).2
    rw [hstart, List.drop_zero] at hcells
    rw [hbuffer, htailLength, ← hcells, List.take_append_drop]
  · have hmoved : overwrite? b.cells 0 tail = some (tail ++ b.cells.drop tail.length) := by
      rw [overwrite?, if_pos (by omega), List.take_zero, List.nil_append, Nat.zero_add]
    have hleft : (b.cursor + min n b.remaining).psub s.start = some tail.length :=
      Nat.psub_eq_some.2 (by omega)
    refine ⟨⟨_, ⟨s.counted, 0⟩, s.extracts⟩, ?_, hbuffer.symm, hstats, hnotices, hcovers.sound⟩
    simp [hstart, hleft, htail, hmoved]

/-- Bytes are written into cells that are there, as many as fit. -/
theorem overwrite_fitting (bytes : List UInt8) :
    overwrite? b.cells b.cursor (bytes.take b.remaining) = some (b.write bytes).cells := by
  have hcursor := h.cursor
  have hroom : b.cursor + (bytes.take b.remaining).length ≤ b.cells.length := by
    rw [h.cells, List.length_take, remaining]
    omega
  rw [overwrite?, if_pos hroom, LineBuffer.write, spare, List.drop_drop]
  rfl

/-- Making room discards a buffer whose cursor stands behind the last cell. -/
theorem make_room_eq : (if b.cursor = lineCapacity then (empty, 1) else (b, 0)) =
    (b.makeRoom.1, LineNotice.dumps b.makeRoom.2) := by
  have hfull : b.isFull = true ↔ b.cursor = lineCapacity := by
    rw [h.is_full_iff, h.length_pending]
  rw [makeRoom]
  simp only [hfull]
  split <;> rfl

/-- A piece of a feed makes no access beyond the cells: it makes room, writes as many bytes of the
chunk as fit, and commits them. -/
theorem feed_piece_by_access (chunk : List UInt8) :
    let room := b.makeRoom
    let n := min chunk.length room.1.remaining
    let taken := (room.1.write (chunk.take n)).commit n
    ∃ first, feedPiece b chunk = some (first, chunk.drop n) ∧
      first.Agrees (taken.1, room.2 ++ taken.2) := by
  intro room n taken
  have hroom : room.1.WellFormed := h.make_room
  have hpiece : slice? chunk 0 n = some (chunk.take n) :=
    slice_eq_some_iff.2 ⟨⟨Nat.zero_le _, Nat.min_le_left _ _⟩, List.drop_zero⟩
  have hrest : slice? chunk n chunk.length = some (chunk.drop n) :=
    slice_eq_some_iff.2 ⟨⟨Nat.min_le_left _ _, le_rfl⟩, by rw [List.take_length]⟩
  have hwritten := hroom.overwrite_fitting (chunk.take n)
  rw [List.take_of_length_le ((List.length_take_le _ _).trans (Nat.min_le_right _ _))] at hwritten
  obtain ⟨made, hmade, hagrees⟩ := (hroom.write (chunk.take n)).commit_by_access n
  have hcommit : commitByAccess ⟨(room.1.write (chunk.take n)).cells, room.1.cursor⟩ n =
      some made := hmade
  refine ⟨⟨made.buffer, ⟨made.stats.messages, LineNotice.dumps room.2⟩, made.extracts⟩, ?_,
    hagrees.buffer, ?_, ?_, hagrees.sound⟩
  · rw [feedPiece, h.make_room_eq]
    dsimp only [Option.bind_eq_bind]
    rw [hroom.psub_cursor, Option.bind_some, hpiece, Option.bind_some, hwritten, Option.bind_some,
      hcommit, Option.bind_some, hrest]
    rfl
  · have hdumps : LineNotice.dumps taken.2 = 0 := dumps_cut_notices _ _
    rw [FeedStats.ofNotices, LineNotice.messages_append, LineNotice.dumps_append,
      b.messages_make_room, hdumps, hagrees.stats]
    rfl
  · rw [LineNotice.messages_append, b.messages_make_room]
    exact hagrees.texts

/-- A feed makes no access beyond the cells. -/
theorem feed_by_access (chunk : List UInt8) :
    ∃ made, feedByAccess b chunk = some made ∧ made.Agrees (b.feed chunk) := by
  induction b, chunk using feed.induct with
  | case1 b =>
      rw [feedByAccess, dif_pos rfl, LineBuffer.feed, dif_pos rfl]
      exact ⟨_, rfl, rfl, rfl, rfl, by simp⟩
  | case2 b chunk hchunk room n taken ih =>
      obtain ⟨first, hfirst, hagrees⟩ := h.feed_piece_by_access chunk
      have htaken : taken.1.WellFormed := (h.make_room.write _).commit _
      obtain ⟨later, hlater, hlaterAgrees⟩ := ih htaken
      have hbuffer : first.buffer = taken.1 := hagrees.buffer
      refine ⟨first.and later, ?_, ?_⟩
      · rw [feedByAccess, dif_neg hchunk]
        split
        · next hnone => simp [hfirst] at hnone
        · next piece rest hpiece =>
            obtain ⟨rfl, rfl⟩ := Prod.mk.inj (Option.some.inj (hfirst.symm.trans hpiece))
            rw [hbuffer, hlater, Option.map_some]
      · rw [LineBuffer.feed, dif_neg hchunk]
        exact hagrees.and hlaterAgrees

/-- The cells behind the cursor can be sliced. -/
theorem slice_spare : slice? b.cells b.cursor b.cells.length = some b.spare := by
  refine slice_eq_some_iff.2 ⟨⟨h.cursor.trans_eq h.cells.symm, le_rfl⟩, ?_⟩
  rw [List.take_length, spare]

/-- A write makes no access beyond the cells. -/
theorem write_by_access (skip : Nat) (bytes : List UInt8) :
    ∃ made, writeByAccess b skip bytes = some made ∧
      made.Agrees (b.write (b.spare.take skip ++ bytes), []) := by
  refine ⟨⟨b.write (b.spare.take skip ++ bytes), ⟨0, 0⟩, []⟩, ?_, rfl, rfl, rfl, by simp⟩
  rw [writeByAccess, h.slice_spare, Option.bind_eq_bind, Option.bind_some, h.length_spare,
    h.overwrite_fitting]
  rfl

end WellFormed

/-! ## Any operations on a new buffer -/

/-- An operation on a line buffer. -/
inductive Operation
  | feed (chunk : List UInt8)
  /-- Writes bytes behind the first `skip` cells behind the cursor, as many as fit. -/
  | write (skip : Nat) (bytes : List UInt8)
  | commit (n : Nat)
  | reset

/-- What an operation makes of a buffer, and its notices. -/
def perform (b : LineBuffer) : Operation → LineBuffer × List LineNotice
  | .feed chunk => b.feed chunk
  | .write skip bytes => (b.write (b.spare.take skip ++ bytes), [])
  | .commit n => b.commit n
  | .reset => (empty, [])

/-- An operation made of single accesses. -/
def performByAccess (b : LineBuffer) : Operation → Option Made
  | .feed chunk => b.feedByAccess chunk
  | .write skip bytes => b.writeByAccess skip bytes
  | .commit n => b.commitByAccess n
  | .reset => some ⟨empty, ⟨0, 0⟩, []⟩

/-- The buffer behind operations on a new one. -/
def behind (operations : List Operation) : LineBuffer :=
  operations.foldl (fun b operation => (b.perform operation).1) empty

/-- Every operation leaves the cursor within the cells. -/
theorem WellFormed.perform {b : LineBuffer} (h : b.WellFormed) (operation : Operation) :
    (b.perform operation).1.WellFormed := by
  cases operation with
  | feed chunk => exact (feed_take_bytes h chunk).1
  | write skip bytes => exact h.write _
  | commit n => exact h.commit n
  | reset => exact well_formed_empty

/-- No operation makes an access beyond the cells. -/
theorem WellFormed.perform_by_access {b : LineBuffer} (h : b.WellFormed) (operation : Operation) :
    ∃ made, b.performByAccess operation = some made ∧ made.Agrees (b.perform operation) := by
  cases operation with
  | feed chunk => exact h.feed_by_access chunk
  | write skip bytes => exact h.write_by_access skip bytes
  | commit n => exact h.commit_by_access n
  | reset => exact ⟨_, rfl, rfl, rfl, rfl, by simp⟩

/-- Behind any operations on a new buffer the cursor is within the cells. -/
theorem well_formed_behind (operations : List Operation) : (behind operations).WellFormed := by
  induction operations using List.reverseRecOn with
  | nil => exact well_formed_empty
  | append_singleton operations last ih =>
      rw [behind, List.foldl_append]
      exact ih.perform last

/-- Behind any operations on a new buffer, the bytes held and the cells behind them make up the 256
cells, no byte held is a line feed, and what can be read off the buffer takes no access beyond its
cells. Nor does the next operation: it counts the messages that it gives, and each of them stood
in the cells, with 1 to 255 bytes of which none is a line feed. -/
theorem operations_in_range (operations : List Operation) (next : Operation) :
    let b := behind operations
    (b.size ≤ 256 ∧ b.size + b.remaining = 256 ∧ lineFeed ∉ b.pending) ∧
      (lineCapacity.psub b.cursor = some b.remaining ∧
        slice? b.cells 0 b.cursor = some b.pending ∧
        slice? b.cells b.cursor b.cells.length = some b.spare) ∧
      ∃ made, b.performByAccess next = some made ∧
        made.buffer = behind (operations ++ [next]) ∧
        made.stats = .ofNotices (b.perform next).2 ∧
        made.stats.messages = made.extracts.length ∧
        made.extracts.map Extract.text = LineNotice.messages (b.perform next).2 ∧
        ∀ e ∈ made.extracts, e.Sound := by
  intro b
  have h : b.WellFormed := well_formed_behind operations
  have hpending : slice? b.cells 0 b.cursor = some b.pending :=
    slice_eq_some_iff.2 ⟨⟨Nat.zero_le _, h.cursor.trans_eq h.cells.symm⟩, List.drop_zero⟩
  have hbehind : behind (operations ++ [next]) = (b.perform next).1 := List.foldl_append
  obtain ⟨made, hmade, hagrees⟩ := h.perform_by_access next
  refine ⟨⟨h.cursor, Nat.add_sub_cancel' h.cursor, h.held⟩,
    ⟨h.psub_cursor, hpending, h.slice_spare⟩, made, hmade, hagrees.buffer.trans hbehind.symm,
    hagrees.stats, ?_, hagrees.texts, hagrees.sound⟩
  rw [hagrees.stats, FeedStats.ofNotices, ← hagrees.texts, List.length_map]

end LineBuffer
end EngineLink
