import EngineLink.Proofs.Framing.Messages

/-!
# Messages read one call after another

A reader that is called again and again on a stream gives its pieces in order, cut into messages
behind each piece that starts with the sentinel, and takes no byte behind the last piece that it
gave. Read `piecesOf`, `messagesOf` and `callAfter` first: the pieces of a stream with what ended
each of them, the messages that they make, and what a call gives behind others.
`calls_of_stream` is the result.
-/

namespace EngineLink

/-! ## The pieces of a stream and what ended them -/

/-- A line as a reader gives it, by what ended it. -/
inductive Piece
  /-- The line had 510 bytes. -/
  | full (bytes : List UInt8)
  /-- A line feed ended the line. -/
  | ended (bytes : List UInt8)
  /-- The end of the stream ended the line. -/
  | last (bytes : List UInt8)
  deriving DecidableEq

namespace Piece

/-- The bytes of the line. -/
def bytes : Piece → List UInt8
  | full bytes | ended bytes | last bytes => bytes

/-- What a piece takes up in the stream: the line, and the line feed if one ended it. -/
def span : Piece → List UInt8
  | full bytes | last bytes => bytes
  | ended bytes => bytes ++ [lineFeed]

/-- The text of the line. -/
def text (p : Piece) : String :=
  Text.lossy p.bytes

/-- The line starts with the sentinel. -/
def closes (sentinel : String) (p : Piece) : Bool :=
  Sentinel.closes sentinel p.text

/-- The piece of a line that was not ended by the end of the stream. -/
def ofClosed (bytes : List UInt8) : Piece :=
  if bytes.length = maxLineLength then .full bytes else .ended bytes

/-- The piece that the end of the stream makes of the bytes behind the last line. -/
def ofOpen (bytes : List UInt8) : List Piece :=
  if bytes = [] then [] else [.last bytes]

end Piece

/-- The pieces of a stream: of every line that ended its blocks and the rest of it, which may be
empty; of the line behind them its blocks, and the rest of it if there is any. -/
def piecesOf (stream : List UInt8) : List Piece :=
  ((endedLines stream).flatMap fun line =>
      (fullBlocks line).map .full ++ [.ended (lastBlock line)]) ++
    (fullBlocks (openLine stream)).map .full ++ Piece.ofOpen (lastBlock (openLine stream))

/-- A full block has the longest length of a line. -/
theorem length_of_mem_full_blocks {line block : List UInt8} (h : block ∈ fullBlocks line) :
    block.length = maxLineLength := by
  obtain ⟨i, hi, rfl⟩ := List.mem_map.1 h
  have hend : (i + 1) * maxLineLength ≤ line.length :=
    (Nat.mul_le_mul_right _ (List.mem_range.1 hi)).trans (Nat.div_mul_le_self _ _)
  rw [Nat.add_mul, Nat.one_mul] at hend
  rw [List.length_take, List.length_drop]
  omega

/-- The length of a block tells that no line feed ended it. -/
theorem map_of_closed_full_blocks (line : List UInt8) :
    (fullBlocks line).map Piece.ofClosed = (fullBlocks line).map Piece.full := by
  refine List.map_congr_left fun block hblock => ?_
  rw [Piece.ofClosed, if_pos (length_of_mem_full_blocks hblock)]

/-- The length of the rest of a line tells that it is no block. -/
theorem of_closed_last_block (line : List UInt8) :
    Piece.ofClosed (lastBlock line) = .ended (lastBlock line) := by
  have hlt : (lastBlock line).length < maxLineLength := by
    rw [length_last_block]
    exact Nat.mod_lt _ (by decide)
  rw [Piece.ofClosed, if_neg hlt.ne]

/-- The pieces of a stream are those that end byte by byte, and the one that the end of the stream
makes. -/
theorem pieces_of_eq (stream : List UInt8) :
    piecesOf stream = (takePieces [] stream).1.map Piece.ofClosed ++
      Piece.ofOpen (takePieces [] stream).2 := by
  rw [take_pieces_eq]
  show _ = (closedPieces stream).map Piece.ofClosed ++ Piece.ofOpen (openPiece stream)
  rw [closedPieces, List.map_append, List.map_flatMap, map_of_closed_full_blocks, piecesOf,
    openPiece]
  simp only [List.map_append, map_of_closed_full_blocks, List.map_singleton, of_closed_last_block]

/-- The pieces that end in bytes take up the bytes held and these, but for those that are left. -/
theorem span_take_pieces (held bytes : List UInt8) (hheld : held.length < maxLineLength) :
    ((takePieces held bytes).1.map Piece.ofClosed).flatMap Piece.span ++
      (takePieces held bytes).2 = held ++ bytes := by
  induction bytes generalizing held with
  | nil => simp [takePieces]
  | cons b rest ih =>
      rw [takePieces]
      split
      · next hb =>
          have hended : Piece.ofClosed held = .ended held := by
            rw [Piece.ofClosed, if_neg hheld.ne]
          show (Piece.ofClosed held :: (takePieces [] rest).1.map Piece.ofClosed).flatMap _ ++
            (takePieces [] rest).2 = _
          rw [List.flatMap_cons, hended, List.append_assoc, ih [] (by decide), hb]
          show (held ++ [lineFeed]) ++ rest = held ++ lineFeed :: rest
          rw [List.append_assoc, List.singleton_append]
      · split
        · next hlength =>
            have hfull : Piece.ofClosed (held ++ [b]) = .full (held ++ [b]) := by
              rw [Piece.ofClosed, if_pos hlength]
            show (Piece.ofClosed (held ++ [b]) ::
              (takePieces [] rest).1.map Piece.ofClosed).flatMap _ ++ (takePieces [] rest).2 = _
            rw [List.flatMap_cons, hfull, List.append_assoc, ih [] (by decide)]
            show (held ++ [b]) ++ rest = held ++ b :: rest
            rw [List.append_assoc, List.singleton_append]
        · next hlength =>
            have hroom : (held ++ [b]).length < maxLineLength := by
              rw [List.length_append, List.length_singleton] at hlength ⊢
              omega
            rw [ih (held ++ [b]) hroom, List.append_assoc, List.singleton_append]

/-- The bytes of an open line are those of its pieces. -/
theorem span_of_open (bytes : List UInt8) : (Piece.ofOpen bytes).flatMap Piece.span = bytes := by
  unfold Piece.ofOpen
  split
  · next hempty => rw [hempty]; rfl
  · exact List.append_nil bytes

/-- The pieces of a stream take up all of it. -/
theorem span_pieces_of (stream : List UInt8) : (piecesOf stream).flatMap Piece.span = stream := by
  rw [pieces_of_eq, List.flatMap_append, span_of_open, span_take_pieces [] stream (by decide),
    List.nil_append]

/-- A stream without pieces is empty. -/
theorem eq_nil_of_pieces_of {stream : List UInt8} (h : piecesOf stream = []) : stream = [] := by
  rw [← span_pieces_of stream, h, List.flatMap_nil]

namespace Sentinel

/-! ## Reading the first piece -/

section
variable {reads : List ByteRead} (hsteady : Steady reads)
include hsteady

/-- From a stream without pieces no line is read. -/
theorem read_line_of_no_piece (h : piecesOf (bytesOf reads) = []) :
    readLine reads = (.ok none, []) := by
  have hnone : takePieces [] (bytesOf reads) = ([], []) := by
    rw [eq_nil_of_pieces_of h, takePieces]
  obtain ⟨_, hline⟩ := take_line_of_open hsteady (by decide) hnone []
  rw [List.append_nil] at hline
  rw [readLine, hline]
  rfl

/-- The line that is read is the first piece, and what it takes up is taken from the stream. -/
theorem read_line_of_piece {p : Piece} {rest : List Piece}
    (h : piecesOf (bytesOf reads) = p :: rest) :
    ∃ left, Steady left ∧ readLine reads = (.ok (some p.text), left) ∧
      piecesOf (bytesOf left) = rest ∧ bytesOf reads = p.span ++ bytesOf left := by
  suffices hline : ∃ left, Steady left ∧ readLine reads = (.ok (some p.text), left) ∧
      piecesOf (bytesOf left) = rest by
    obtain ⟨left, hleft, hread, hrest⟩ := hline
    refine ⟨left, hleft, hread, hrest, ?_⟩
    rw [← span_pieces_of (bytesOf reads), h, List.flatMap_cons, ← hrest, span_pieces_of]
  rcases htaken : takePieces [] (bytesOf reads) with ⟨_ | ⟨piece, later⟩, rest'⟩
  · -- no line ends in front of the end of the stream
    rw [pieces_of_eq, htaken] at h
    obtain ⟨_, hline⟩ := take_line_of_open hsteady (by decide) htaken []
    rw [List.append_nil] at hline
    by_cases hempty : rest' = []
    · simp [Piece.ofOpen, hempty] at h
    · rw [List.map_nil, List.nil_append, Piece.ofOpen, if_neg hempty] at h
      cases h
      refine ⟨[], steady_nil, ?_, rfl⟩
      rw [readLine, hline, takeLine, if_neg hempty]
      rfl
  · rw [pieces_of_eq, htaken, List.map_cons, List.cons_append] at h
    obtain ⟨left, hleft, hpieces, hline⟩ := take_line_of_piece hsteady (by decide) htaken
    have hread := hline []
    rw [List.append_nil, List.append_nil] at hread
    obtain ⟨hfirst, hrest⟩ := List.cons.inj h
    have htext : p.text = Text.lossy piece := by
      rw [← hfirst, Piece.ofClosed]
      split <;> rfl
    refine ⟨left, hleft, ?_, ?_⟩
    · rw [readLine, hread, htext]
    · rw [pieces_of_eq, hpieces, hrest]

end

/-! ## The messages that pieces make -/

/-- Pieces cut behind each one that starts with the sentinel. -/
def messagesOf (sentinel : String) : List Piece → List (List Piece)
  | [] => []
  | p :: rest =>
      if p.closes sentinel then [p] :: messagesOf sentinel rest
      else
        match messagesOf sentinel rest with
        | [] => [[p]]
        | message :: later => (p :: message) :: later

/-- The last piece of a message starts with the sentinel. -/
def isComplete (sentinel : String) (message : List Piece) : Bool :=
  message.getLast?.any (Piece.closes sentinel)

/-- A message is not empty, and no piece in front of its last one starts with the sentinel. -/
structure Uncut (sentinel : String) (message : List Piece) : Prop where
  nonempty : message ≠ []
  uncut : ∀ p ∈ message.dropLast, p.closes sentinel = false

/-- A message of one piece. -/
theorem uncut_singleton (sentinel : String) (p : Piece) : Uncut sentinel [p] where
  nonempty := List.cons_ne_nil p []
  uncut := fun _ hp => absurd hp List.not_mem_nil

/-- A piece that does not start with the sentinel continues with the message behind it. -/
theorem Uncut.cons {sentinel : String} {message : List Piece} (h : Uncut sentinel message)
    {p : Piece} (hp : p.closes sentinel = false) :
    Uncut sentinel (p :: message) ∧
      isComplete sentinel (p :: message) = isComplete sentinel message := by
  obtain ⟨first, rest, rfl⟩ := List.exists_cons_of_ne_nil h.nonempty
  refine ⟨⟨List.cons_ne_nil _ _, fun q hq => ?_⟩, by rw [isComplete, List.getLast?_cons_cons]; rfl⟩
  rw [List.dropLast_cons_cons, List.mem_cons] at hq
  rcases hq with rfl | hq
  · exact hp
  · exact h.uncut q hq

/-- Pieces make no message only if there are none. -/
theorem eq_nil_of_messages_of {sentinel : String} {ps : List Piece}
    (h : messagesOf sentinel ps = []) : ps = [] := by
  cases ps with
  | nil => rfl
  | cons p rest =>
      rw [messagesOf] at h
      split at h
      · cases h
      · split at h <;> cases h

/-- Cutting loses no piece and changes none. -/
theorem flatten_messages_of (sentinel : String) (ps : List Piece) :
    (messagesOf sentinel ps).flatten = ps := by
  induction ps with
  | nil => rfl
  | cons p rest ih =>
      rw [messagesOf]
      split
      · rw [List.flatten_cons, ih, List.singleton_append]
      · split
        · next hnone => rw [eq_nil_of_messages_of hnone]; rfl
        · next message later hsome =>
            rw [hsome] at ih
            rw [List.flatten_cons, List.cons_append, ← List.flatten_cons, ih]

/-- Every message ends with the first piece of it that starts with the sentinel, or is the last
one. -/
theorem uncut_messages_of (sentinel : String) (ps : List Piece) :
    (∀ message ∈ messagesOf sentinel ps, Uncut sentinel message) ∧
      ∀ message ∈ (messagesOf sentinel ps).dropLast, isComplete sentinel message = true := by
  induction ps with
  | nil => simp [messagesOf]
  | cons p rest ih =>
      obtain ⟨huncut, hcomplete⟩ := ih
      rw [messagesOf]
      split
      · next hclose =>
          refine ⟨fun message hmem => ?_, fun message hmem => ?_⟩
          · rcases List.mem_cons.1 hmem with rfl | hmem
            · exact uncut_singleton sentinel p
            · exact huncut message hmem
          · cases hlater : messagesOf sentinel rest with
            | nil =>
                rw [hlater] at hmem
                cases hmem
            | cons first later =>
                rw [hlater, List.dropLast_cons_cons, ← hlater, List.mem_cons] at hmem
                rcases hmem with rfl | hmem
                · exact hclose
                · exact hcomplete message hmem
      · next hopen =>
          have hopen : p.closes sentinel = false := Bool.eq_false_iff.2 hopen
          split
          · refine ⟨fun message hmem => ?_, fun message hmem => absurd hmem List.not_mem_nil⟩
            rw [List.mem_singleton.1 hmem]
            exact uncut_singleton sentinel p
          · next first later hsome =>
              rw [hsome] at huncut hcomplete
              obtain ⟨hfirst, hsame⟩ := (huncut first List.mem_cons_self).cons hopen
              refine ⟨fun message hmem => ?_, fun message hmem => ?_⟩
              · rcases List.mem_cons.1 hmem with rfl | hmem
                · exact hfirst
                · exact huncut message (List.mem_cons_of_mem _ hmem)
              · cases later with
                | nil => cases hmem
                | cons second later =>
                    rw [List.dropLast_cons_cons, List.mem_cons] at hmem
                    rw [List.dropLast_cons_cons] at hcomplete
                    rcases hmem with rfl | hmem
                    · rw [hsame]
                      exact hcomplete first List.mem_cons_self
                    · exact hcomplete message (List.mem_cons_of_mem _ hmem)

/-! ## Reading the first message -/

/-- The message that a reader makes of pieces. -/
def readOf (sentinel : String) (message : List Piece) : SentinelMessage :=
  ⟨message.map Piece.text, isComplete sentinel message⟩

section
variable {sentinel : String} {reads : List ByteRead} (hsteady : Steady reads)
include hsteady

/-- From a stream without messages no line is gathered. -/
theorem gather_of_no_message (h : messagesOf sentinel (piecesOf (bytesOf reads)) = []) :
    gather sentinel reads = ⟨[], .ended, []⟩ :=
  gather_of_end (read_line_of_no_piece hsteady (eq_nil_of_messages_of h))

/-- The lines that are gathered are the first message, and what they take up is taken from the
stream. -/
theorem gather_of_message {message : List Piece} {later : List (List Piece)}
    (h : messagesOf sentinel (piecesOf (bytesOf reads)) = message :: later) :
    ∃ left, Steady left ∧ gather sentinel reads =
        ⟨message.map Piece.text, if isComplete sentinel message then .closed else .ended, left⟩ ∧
      messagesOf sentinel (piecesOf (bytesOf left)) = later ∧
      bytesOf reads = message.flatMap Piece.span ++ bytesOf left := by
  -- the piece that is read first closes the message, or continues with the one behind it
  induction hpieces : piecesOf (bytesOf reads) generalizing reads message later with
  | nil =>
      rw [hpieces] at h
      cases h
  | cons p rest ih =>
      obtain ⟨left, hleft, hread, hrest, hspan⟩ := read_line_of_piece hsteady hpieces
      rw [hpieces, messagesOf] at h
      rw [gather_of_line hread]
      split at h
      · next hclose =>
          cases h
          refine ⟨left, hleft, ?_, by rw [hrest], ?_⟩
          · rw [if_pos (show closes sentinel p.text = true from hclose),
              if_pos (show isComplete sentinel [p] = true from hclose)]
            rfl
          · rw [List.flatMap_singleton, hspan]
      · next hopen =>
          have hopen : p.closes sentinel = false := Bool.eq_false_iff.2 hopen
          rw [if_neg (show ¬closes sentinel p.text = true from Bool.eq_false_iff.1 hopen)]
          split at h
          · next hnone =>
              cases h
              have hnone' : messagesOf sentinel (piecesOf (bytesOf left)) = [] := by
                rw [hrest, hnone]
              rw [gather_of_no_message hleft hnone',
                if_neg (show ¬isComplete sentinel [p] = true from Bool.eq_false_iff.1 hopen)]
              refine ⟨[], steady_nil, rfl, rfl, ?_⟩
              rw [hspan, eq_nil_of_pieces_of (eq_nil_of_messages_of hnone'), List.flatMap_singleton]
              rfl
          · next first later' hsome =>
              cases h
              have hsome' : messagesOf sentinel (piecesOf (bytesOf left)) = first :: later := by
                rw [hrest, hsome]
              obtain ⟨left', hleft', hgather, hlater, hspans⟩ := ih hleft hsome' hrest
              have huncut := (uncut_messages_of sentinel rest).1 first
                (by rw [hsome]; exact List.mem_cons_self)
              refine ⟨left', hleft', ?_, hlater, ?_⟩
              · rw [hgather, (huncut.cons hopen).2]
                rfl
              · rw [hspan, hspans, List.flatMap_cons, List.append_assoc]

/-- A call gives the first message and leaves the stream behind it. -/
theorem read_message_of_message {message : List Piece} {later : List (List Piece)}
    (h : messagesOf sentinel (piecesOf (bytesOf reads)) = message :: later) :
    ∃ left, Steady left ∧ readMessage sentinel reads = (.ok (readOf sentinel message), left) ∧
      messagesOf sentinel (piecesOf (bytesOf left)) = later ∧
      bytesOf reads = message.flatMap Piece.span ++ bytesOf left := by
  obtain ⟨left, hleft, hgather, hlater, hspan⟩ := gather_of_message hsteady h
  have hmessage := (uncut_messages_of sentinel (piecesOf (bytesOf reads))).1 message
    (by rw [h]; exact List.mem_cons_self)
  refine ⟨left, hleft, ?_, hlater, hspan⟩
  rw [readMessage, hgather, readOf]
  cases hcomplete : isComplete sentinel message with
  | true => rfl
  | false =>
      have hlines : message.map Piece.text ≠ [] := fun hnil => hmessage.nonempty
        (List.map_eq_nil_iff.1 hnil)
      simp [Gathered.result, hlines]

/-- Behind the last message a call finds the end of the stream. -/
theorem read_message_of_no_message (h : messagesOf sentinel (piecesOf (bytesOf reads)) = []) :
    readMessage sentinel reads = (.error .connectionClosed, []) := by
  rw [readMessage, gather_of_no_message hsteady h]
  rfl

end

/-! ## One call after another -/

/-- What a call gives behind so many others, and the stream that it leaves. -/
def callAfter (sentinel : String) :
    Nat → List ByteRead → Except FrameError SentinelMessage × List ByteRead
  | 0, reads => readMessage sentinel reads
  | n + 1, reads => callAfter sentinel n (readMessage sentinel reads).2

/-- What a call gives if this is the message behind those before it, or if there is none. -/
def answerOf (sentinel : String) : Option (List Piece) → Except FrameError SentinelMessage
  | some message => .ok (readOf sentinel message)
  | none => .error .connectionClosed

/-- Each call gives the message at its place, and what the messages up to it take up is taken from
the stream. -/
theorem call_after_eq (sentinel : String) (n : Nat) {reads : List ByteRead}
    (hsteady : Steady reads) :
    let messages := messagesOf sentinel (piecesOf (bytesOf reads))
    (callAfter sentinel n reads).1 = answerOf sentinel messages[n]? ∧
      bytesOf reads = (messages.take (n + 1)).flatten.flatMap Piece.span ++
        bytesOf (callAfter sentinel n reads).2 := by
  -- each call is the first one on the stream that the calls before it leave
  intro messages
  induction n generalizing reads with
  | zero =>
      cases hmessages : messages with
      | nil =>
          rw [callAfter, read_message_of_no_message hsteady hmessages]
          exact ⟨rfl, eq_nil_of_pieces_of (eq_nil_of_messages_of hmessages)⟩
      | cons message later =>
          obtain ⟨left, _, hread, _, hspan⟩ := read_message_of_message hsteady hmessages
          rw [callAfter, hread]
          refine ⟨rfl, ?_⟩
          show bytesOf reads = (message ++ []).flatMap Piece.span ++ bytesOf left
          rw [List.append_nil]
          exact hspan
  | succ n ih =>
      cases hmessages : messages with
      | nil =>
          have hempty : bytesOf reads = [] := eq_nil_of_pieces_of (eq_nil_of_messages_of hmessages)
          rw [callAfter, read_message_of_no_message hsteady hmessages, hempty]
          exact ih steady_nil
      | cons message later =>
          obtain ⟨left, hleft, hread, hlater, hspan⟩ := read_message_of_message hsteady hmessages
          obtain ⟨hanswer, hrest⟩ := ih hleft
          rw [hlater] at hanswer hrest
          rw [callAfter, hread]
          refine ⟨hanswer, ?_⟩
          rw [hspan, List.take_succ_cons, List.flatten_cons, List.flatMap_append, List.append_assoc]
          exact congrArg _ hrest

/-- A reader that is called again and again on a stream, interrupted or not, gives the pieces of
the stream cut into messages behind each piece that starts with the sentinel, each message once and
in order, and then that the connection is closed. The pieces take up all of the stream. Only the
last message can be without a sentinel, and none is empty. The calls so far have taken from the
stream what their messages take up, and no more. -/
theorem calls_of_stream (sentinel : String) {reads : List ByteRead} (hsteady : Steady reads) :
    let stream := bytesOf reads
    let messages := messagesOf sentinel (piecesOf stream)
    (piecesOf stream).flatMap Piece.span = stream ∧
      messages.flatten = piecesOf stream ∧
      (∀ message ∈ messages, message ≠ [] ∧
        ∀ p ∈ message.dropLast, p.closes sentinel = false) ∧
      (∀ message ∈ messages.dropLast, isComplete sentinel message = true) ∧
      ∀ n, (callAfter sentinel n reads).1 = answerOf sentinel messages[n]? ∧
        stream = (messages.take (n + 1)).flatten.flatMap Piece.span ++
          bytesOf (callAfter sentinel n reads).2 := by
  intro stream messages
  obtain ⟨huncut, hcomplete⟩ := uncut_messages_of sentinel (piecesOf stream)
  refine ⟨span_pieces_of stream, flatten_messages_of sentinel (piecesOf stream), ?_, hcomplete,
    fun n => call_after_eq sentinel n hsteady⟩
  intro message hmem
  exact ⟨(huncut message hmem).nonempty, (huncut message hmem).uncut⟩

/-- A line of a full block and a rest that starts with the sentinel, a signal, an empty line, and a
line that has not ended. -/
def splitLine : List ByteRead :=
  (List.replicate maxLineLength 97 ++ Text.utf8 "END x\n").map .byte ++
    ([.failed (.ofKind .interrupted)] ++ (Text.utf8 "\nb").map .byte)

/-- A line is cut behind a full block, so that its rest starts with the sentinel and ends the
message; the empty line and the open one behind it are the next message, which no sentinel ends. -/
theorem calls_of_split_line :
    Steady splitLine ∧
      (callAfter "END" 0 splitLine).1 =
        .ok ⟨[Text.lossy (List.replicate maxLineLength 97), "END x"], true⟩ ∧
      bytesOf (callAfter "END" 0 splitLine).2 = Text.utf8 "\nb" ∧
      (callAfter "END" 1 splitLine).1 = .ok ⟨["", "b"], false⟩ ∧
      ∀ n, (callAfter "END" (n + 2) splitLine).1 = .error .connectionClosed := by
  have hsignal : Steady [.failed (.ofKind .interrupted)] := by
    intro r hr
    rw [List.mem_singleton.1 hr]
    rfl
  have hsteady : Steady splitLine :=
    (steady_map_byte _).append (hsignal.append (steady_map_byte _))
  have hbytes : bytesOf splitLine =
      List.replicate maxLineLength 97 ++ Text.utf8 "END x\n" ++ Text.utf8 "\nb" := by
    rw [splitLine, bytes_of_append, bytes_of_append, bytes_of_map_byte, bytes_of_map_byte]
    rfl
  have hpieces : piecesOf (bytesOf splitLine) =
      [.full (List.replicate maxLineLength 97), .ended (Text.utf8 "END x"), .ended [],
        .last (Text.utf8 "b")] := by
    rw [hbytes]
    decide +kernel
  -- of the text of the block only the first character is looked at
  have hblock : Piece.closes "END" (.full (List.replicate maxLineLength 97)) = false := by
    show ['E', 'N', 'D'].isPrefixOf (Text.lossy (97 :: List.replicate 509 97)).toList = false
    rw [Text.lossy, String.toList_ofList, Text.lossyChars]
    rfl
  have hmessages : messagesOf "END" (piecesOf (bytesOf splitLine)) =
      [[.full (List.replicate maxLineLength 97), .ended (Text.utf8 "END x")],
        [.ended [], .last (Text.utf8 "b")]] := by
    have hlater : messagesOf "END" [.ended (Text.utf8 "END x"), .ended [],
        .last (Text.utf8 "b")] =
        [[.ended (Text.utf8 "END x")], [.ended [], .last (Text.utf8 "b")]] := by decide +kernel
    rw [hpieces, messagesOf, hblock, hlater]
    rfl
  obtain ⟨_, _, _, _, hcalls⟩ := calls_of_stream "END" hsteady
  rw [hmessages] at hcalls
  have hlast : isComplete "END" [.full (List.replicate maxLineLength 97),
      .ended (Text.utf8 "END x")] = true := by
    show Piece.closes "END" (.ended (Text.utf8 "END x")) = true
    decide +kernel
  refine ⟨hsteady, ?_, ?_, ?_, fun n => ?_⟩
  · rw [(hcalls 0).1]
    show Except.ok (readOf "END" _) = _
    rw [readOf, hlast]
    have hline : Text.lossy (Text.utf8 "END x") = "END x" := by decide +kernel
    show Except.ok (SentinelMessage.mk [_, Text.lossy (Text.utf8 "END x")] true) = _
    rw [hline]
    rfl
  · have hleft := (hcalls 0).2
    rw [hbytes] at hleft
    exact (List.append_cancel_left hleft).symm
  · rw [(hcalls 1).1]
    decide +kernel
  · rw [(hcalls (n + 2)).1]
    rfl

end Sentinel

end EngineLink
