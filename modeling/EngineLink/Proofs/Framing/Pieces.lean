import EngineLink.Framing.Sentinel
import EngineLink.Proofs.Framing.LineStream

/-!
# Lines of limited length

A reader cuts a stream at its line feeds, and a line also where it has 510 bytes. Read
`closedPieces` and `openPiece` first: the pieces of a stream in closed form. `takePieces` makes
the same pieces byte by byte, and `take_line_of_piece` shows that the reader does, whatever
interrupts it and whatever follows.
-/

namespace EngineLink

/-! ## The pieces of a stream -/

/-- The blocks of 510 bytes from the start of a line. -/
def fullBlocks (line : List UInt8) : List (List UInt8) :=
  (List.range (line.length / maxLineLength)).map fun i =>
    (line.drop (i * maxLineLength)).take maxLineLength

/-- The bytes of a line behind its blocks, fewer than 510. -/
def lastBlock (line : List UInt8) : List UInt8 :=
  line.drop (line.length / maxLineLength * maxLineLength)

/-- The pieces that end in a stream: the blocks of every line, and behind those of a line that
ended the rest of it, which may be empty. -/
def closedPieces (stream : List UInt8) : List (List UInt8) :=
  ((endedLines stream).flatMap fun line => fullBlocks line ++ [lastBlock line]) ++
    fullBlocks (openLine stream)

/-- The bytes of a stream behind its last piece. -/
def openPiece (stream : List UInt8) : List UInt8 :=
  lastBlock (openLine stream)

/-- An empty line has no full block. -/
@[simp] theorem full_blocks_nil : fullBlocks [] = [] := rfl

/-- Behind the full blocks of an empty line nothing is left. -/
@[simp] theorem last_block_nil : lastBlock [] = [] := rfl

/-- What full blocks leave of a line is the remainder of its length. -/
theorem length_last_block (line : List UInt8) :
    (lastBlock line).length = line.length % maxLineLength := by
  have := Nat.div_add_mod line.length maxLineLength
  rw [Nat.mul_comm] at this
  rw [lastBlock, List.length_drop]
  omega

/-- One more byte leaves the blocks in front of it as they are. -/
theorem block_append {line : List UInt8} {i : Nat} (h : i < line.length / maxLineLength)
    (b : UInt8) :
    ((line ++ [b]).drop (i * maxLineLength)).take maxLineLength =
      (line.drop (i * maxLineLength)).take maxLineLength := by
  have hend : (i + 1) * maxLineLength ≤ line.length :=
    (Nat.mul_le_mul_right _ h).trans (Nat.div_mul_le_self _ _)
  rw [Nat.add_mul, Nat.one_mul] at hend
  rw [List.drop_append_of_le_length (by omega), List.take_append_of_le_length]
  rw [List.length_drop]
  omega

/-- One more byte stands behind what the full blocks leave of a line. -/
theorem drop_blocks_append (line : List UInt8) (b : UInt8) :
    (line ++ [b]).drop (line.length / maxLineLength * maxLineLength) = lastBlock line ++ [b] :=
  List.drop_append_of_le_length (Nat.div_mul_le_self _ _)

/-- The byte that completes a block ends a piece. -/
theorem blocks_append_of_full {line : List UInt8} {b : UInt8}
    (h : (lastBlock line ++ [b]).length = maxLineLength) :
    fullBlocks (line ++ [b]) = fullBlocks line ++ [lastBlock line ++ [b]] ∧
      lastBlock (line ++ [b]) = [] := by
  have hmod : line.length % maxLineLength + 1 = maxLineLength := by
    rwa [List.length_append, length_last_block] at h
  have hblocks : (line ++ [b]).length / maxLineLength = line.length / maxLineLength + 1 := by
    rw [List.length_append, List.length_singleton]
    simp only [maxLineLength] at *
    omega
  have hend : (line.length / maxLineLength + 1) * maxLineLength = (line ++ [b]).length := by
    have := Nat.div_add_mod line.length maxLineLength
    rw [Nat.mul_comm] at this
    rw [Nat.add_mul, Nat.one_mul, List.length_append, List.length_singleton]
    omega
  refine ⟨?_, ?_⟩
  · rw [fullBlocks, hblocks, List.range_succ, List.map_append, fullBlocks]
    congr 1
    · exact List.map_congr_left fun i hi => block_append (List.mem_range.1 hi) b
    · rw [List.map_singleton, drop_blocks_append, List.take_of_length_le h.le]
  · rw [lastBlock, hblocks, hend, List.drop_length]

/-- Any other byte is left behind the blocks. -/
theorem blocks_append_of_room {line : List UInt8} {b : UInt8}
    (h : (lastBlock line ++ [b]).length ≠ maxLineLength) :
    fullBlocks (line ++ [b]) = fullBlocks line ∧
      lastBlock (line ++ [b]) = lastBlock line ++ [b] := by
  have hblocks : (line ++ [b]).length / maxLineLength = line.length / maxLineLength := by
    rw [List.length_append, length_last_block] at h
    rw [List.length_append]
    simp only [maxLineLength, List.length_singleton] at *
    omega
  refine ⟨?_, ?_⟩
  · rw [fullBlocks, hblocks, fullBlocks]
    exact List.map_congr_left fun i hi => block_append (List.mem_range.1 hi) b
  · rw [lastBlock, hblocks, drop_blocks_append]

/-! ## Byte by byte -/

/-- What bytes make of those held of a piece: the pieces that end in them, and the bytes of the
piece that does not. -/
def takePieces (held : List UInt8) : List UInt8 → List (List UInt8) × List UInt8
  | [] => ([], held)
  | b :: rest =>
      if b = lineFeed then
        let later := takePieces [] rest
        (held :: later.1, later.2)
      else if (held ++ [b]).length = maxLineLength then
        let later := takePieces [] rest
        ((held ++ [b]) :: later.1, later.2)
      else takePieces (held ++ [b]) rest

/-- The pieces in bytes behind those of an unfinished line are those of the lines. -/
theorem take_pieces_last_block (line bytes : List UInt8) :
    fullBlocks line ++ (takePieces (lastBlock line) bytes).1 =
        ((cut line bytes).1.flatMap fun ended => fullBlocks ended ++ [lastBlock ended]) ++
          fullBlocks (cut line bytes).2 ∧
      (takePieces (lastBlock line) bytes).2 = lastBlock (cut line bytes).2 := by
  induction bytes generalizing line with
  | nil => simp [takePieces, cut]
  | cons b rest ih =>
      by_cases hb : b = lineFeed
      · subst hb
        obtain ⟨hpieces, hopen⟩ := ih []
        rw [full_blocks_nil, List.nil_append, last_block_nil] at hpieces
        rw [last_block_nil] at hopen
        simp only [takePieces, cut, if_true, List.flatMap_cons]
        refine ⟨?_, hopen⟩
        rw [hpieces, List.append_assoc, List.append_assoc, List.singleton_append]
      · obtain ⟨hpieces, hopen⟩ := ih (line ++ [b])
        simp only [takePieces, cut, hb, if_false]
        split
        · next hfull =>
            -- the piece ends, but the line goes on, so its blocks grow by this one
            obtain ⟨hblocks, hlast⟩ := blocks_append_of_full hfull
            rw [hblocks, hlast, List.append_assoc, List.singleton_append] at hpieces
            rw [hlast] at hopen
            exact ⟨hpieces, hopen⟩
        · next hroom =>
            obtain ⟨hblocks, hlast⟩ := blocks_append_of_room hroom
            rw [hblocks, hlast] at hpieces
            rw [hlast] at hopen
            exact ⟨hpieces, hopen⟩

/-- The pieces of a stream are those that end byte by byte. -/
theorem take_pieces_eq (stream : List UInt8) :
    takePieces [] stream = (closedPieces stream, openPiece stream) := by
  obtain ⟨hpieces, hopen⟩ := take_pieces_last_block [] stream
  rw [full_blocks_nil, last_block_nil, List.nil_append] at hpieces
  rw [last_block_nil] at hopen
  rw [closedPieces, openPiece, ended_lines_eq_cut, open_line_eq_cut, ← hpieces, ← hopen]

/-! ## The reads of a line -/

namespace ByteRead

/-- The byte that a read brought. -/
def byte? : ByteRead → Option UInt8
  | byte b => some b
  | _ => none

/-- The read brought a byte, or a signal made it fail. -/
def IsSteady : ByteRead → Prop
  | byte _ => True
  | failed e => e.isInterrupted = true
  | ended => False

end ByteRead

/-- No read found the end of the stream or failed by itself. -/
def Steady (reads : List ByteRead) : Prop :=
  ∀ r ∈ reads, r.IsSteady

/-- The bytes that reads brought. -/
def bytesOf (reads : List ByteRead) : List UInt8 :=
  reads.filterMap ByteRead.byte?

/-- An empty stream is steady. -/
theorem steady_nil : Steady [] :=
  List.forall_mem_nil _

/-- Steady streams one behind the other are steady. -/
theorem Steady.append {first second : List ByteRead} (hfirst : Steady first)
    (hsecond : Steady second) : Steady (first ++ second) := by
  intro r hr
  rcases List.mem_append.1 hr with hr | hr
  · exact hfirst r hr
  · exact hsecond r hr

/-- A stream of bytes is steady. -/
theorem steady_map_byte (bytes : List UInt8) : Steady (bytes.map .byte) := by
  intro r hr
  obtain ⟨b, _, rfl⟩ := List.mem_map.1 hr
  trivial

/-- The bytes of streams one behind the other are those of each. -/
theorem bytes_of_append (first second : List ByteRead) :
    bytesOf (first ++ second) = bytesOf first ++ bytesOf second := by
  simp [bytesOf]

/-- A stream of bytes brings these bytes. -/
@[simp] theorem bytes_of_map_byte (bytes : List UInt8) : bytesOf (bytes.map .byte) = bytes := by
  simp [bytesOf, List.filterMap_map, Function.comp_def, ByteRead.byte?]

section
variable {held : List UInt8} {tail : List ByteRead} (hheld : held.length < maxLineLength)
include hheld

/-- A byte is looked at while there is room for it. -/
theorem take_line_byte (b : UInt8) : takeLine held (.byte b :: tail) =
    if b = lineFeed then (.line held, tail) else takeLine (held ++ [b]) tail := by
  rw [takeLine, if_neg (Nat.not_le_of_lt hheld)]
  rfl

/-- A signal is not seen. -/
theorem take_line_signal {e : SystemError} (hsignal : e.isInterrupted = true) :
    takeLine held (.failed e :: tail) = takeLine held tail := by
  rw [takeLine, if_neg (Nat.not_le_of_lt hheld)]
  simp only [hsignal, if_true]

/-- Any other failure drops what was gathered. -/
theorem take_line_failed {e : SystemError} (hsignal : e.isInterrupted = false) :
    takeLine held (.failed e :: tail) = (.failed e, tail) := by
  rw [takeLine, if_neg (Nat.not_le_of_lt hheld)]
  simp only [hsignal, Bool.false_eq_true, if_false]

end

/-- At the longest length a line ends without a further read. -/
theorem take_line_full {held : List UInt8} (hheld : held.length = maxLineLength)
    (tail : List ByteRead) : takeLine held tail = (.line held, tail) := by
  have hne : held ≠ [] := by
    rintro rfl
    cases hheld
  cases tail with
  | nil => rw [takeLine, if_neg hne]
  | cons r rest =>
      unfold takeLine
      exact if_pos hheld.ge

/-- Reads in which no piece ends are all taken for the line that is being read. -/
theorem take_line_of_open {held rest : List UInt8} {reads : List ByteRead} (hsteady : Steady reads)
    (hheld : held.length < maxLineLength) (h : takePieces held (bytesOf reads) = ([], rest))
    (tail : List ByteRead) :
    rest.length < maxLineLength ∧ takeLine held (reads ++ tail) = takeLine rest tail := by
  induction reads generalizing held with
  | nil =>
      obtain rfl : held = rest := congrArg Prod.snd h
      exact ⟨hheld, rfl⟩
  | cons r reads ih =>
      have hlater : Steady reads := fun r hr => hsteady r (List.mem_cons_of_mem _ hr)
      cases r with
      | byte b =>
          change takePieces held (b :: bytesOf reads) = _ at h
          rw [takePieces] at h
          rw [List.cons_append, take_line_byte hheld]
          split at h
          · cases h
          · next hb =>
              split at h
              · cases h
              · next hroom =>
                  rw [if_neg hb]
                  refine ih hlater ?_ h
                  rw [List.length_append, List.length_singleton] at hroom ⊢
                  omega
      | failed e =>
          rw [List.cons_append, take_line_signal hheld (hsteady _ List.mem_cons_self)]
          exact ih hlater hheld h
      | ended => exact absurd (hsteady _ List.mem_cons_self) id

/-- The first piece that ends in reads is the line that is read, and nothing behind it is
touched. -/
theorem take_line_of_piece {held piece rest : List UInt8} {later : List (List UInt8)}
    {reads : List ByteRead} (hsteady : Steady reads) (hheld : held.length < maxLineLength)
    (h : takePieces held (bytesOf reads) = (piece :: later, rest)) :
    ∃ left, Steady left ∧ takePieces [] (bytesOf left) = (later, rest) ∧
      ∀ tail, takeLine held (reads ++ tail) = (.line piece, left ++ tail) := by
  induction reads generalizing held with
  | nil => cases h
  | cons r reads ih =>
      have hlater : Steady reads := fun r hr => hsteady r (List.mem_cons_of_mem _ hr)
      cases r with
      | byte b =>
          change takePieces held (b :: bytesOf reads) = _ at h
          rw [takePieces] at h
          split at h
          · next hb =>
              cases h
              refine ⟨reads, hlater, rfl, fun tail => ?_⟩
              rw [List.cons_append, take_line_byte hheld, if_pos hb]
          · next hb =>
              split at h
              · next hfull =>
                  -- the byte that fills the line ends it, and the byte behind it is not looked at
                  cases h
                  refine ⟨reads, hlater, rfl, fun tail => ?_⟩
                  rw [List.cons_append, take_line_byte hheld, if_neg hb, take_line_full hfull]
              · next hroom =>
                  have hnext : (held ++ [b]).length < maxLineLength := by
                    rw [List.length_append, List.length_singleton] at hroom ⊢
                    omega
                  obtain ⟨left, hleft, hpieces, hline⟩ := ih hlater hnext h
                  refine ⟨left, hleft, hpieces, fun tail => ?_⟩
                  rw [List.cons_append, take_line_byte hheld, if_neg hb, hline]
      | failed e =>
          obtain ⟨left, hleft, hpieces, hline⟩ := ih hlater hheld h
          refine ⟨left, hleft, hpieces, fun tail => ?_⟩
          rw [List.cons_append, take_line_signal hheld (hsteady _ List.mem_cons_self), hline]
      | ended => exact absurd (hsteady _ List.mem_cons_self) id

end EngineLink
