import EngineLink.Proofs.Framing.Calls
import EngineLink.Proofs.Text.RoundTrip

/-!
# Messages written and read back

A sender writes every line of a message with a line feed behind it. A reader gives the messages
back if all lines are shorter than 510 bytes. Behind a line of 510 bytes it reads an empty line
that nobody wrote, since the line ended in front of its line feed. Read `written` and `readAs`
first; `gives_back_iff` is the result.
-/

namespace EngineLink

namespace Sentinel

/-! ## What a sender writes -/

/-- The bytes of messages: those of every line, and a line feed behind them. -/
def written (messages : List (List String)) : List UInt8 :=
  messages.flatten.flatMap fun line => Text.utf8 line ++ [lineFeed]

/-- The last line of a message starts with the sentinel, and no line in front of it does. -/
structure Sealed (sentinel : String) (message : List String) : Prop where
  closed : message.getLast?.any (closes sentinel) = true
  uncut : ∀ line ∈ message.dropLast, closes sentinel line = false

instance (sentinel : String) (message : List String) : Decidable (Sealed sentinel message) :=
  decidable_of_iff (_ ∧ _) ⟨fun h => ⟨h.1, h.2⟩, fun h => ⟨h.closed, h.uncut⟩⟩

/-- A line without a line feed that is no longer than the longest line. -/
structure Fits (line : String) : Prop where
  length_le : (Text.utf8 line).length ≤ maxLineLength
  unbroken : '\n' ∉ line.toList

instance (line : String) : Decidable (Fits line) :=
  decidable_of_iff (_ ∧ _) ⟨fun h => ⟨h.1, h.2⟩, fun h => ⟨h.length_le, h.unbroken⟩⟩

/-- What a call gives that reads a message up to its sentinel, or finds the connection closed. -/
def wholeAnswer : Option (List String) → Except FrameError SentinelMessage
  | some message => .ok ⟨message, true⟩
  | none => .error .connectionClosed

/-- A reader that is called again and again gives these messages, each complete, and then finds the
connection closed. -/
def GivesBack (sentinel : String) (reads : List ByteRead) (messages : List (List String)) : Prop :=
  ∀ n, (callAfter sentinel n reads).1 = wholeAnswer messages[n]?

/-- The pieces that a reader makes of a line and its line feed. A line of 510 bytes ends in front
of the line feed, which then ends an empty line. -/
def readAs (line : String) : List Piece :=
  if (Text.utf8 line).length = maxLineLength then [.full (Text.utf8 line), .ended []]
  else [.ended (Text.utf8 line)]

/-- No byte of another character is a line feed. -/
theorem line_feed_not_mem_utf8 {line : String} (h : '\n' ∉ line.toList) :
    lineFeed ∉ Text.utf8 line := by
  intro hmem
  obtain ⟨c, hc, hbyte⟩ := List.mem_flatMap.1 hmem
  by_cases hascii : c.toNat < 128
  · rw [Text.utf8_of_ascii hascii, List.mem_singleton] at hbyte
    have hnat : lineFeed.toNat = c.toNat := by
      rw [hbyte, UInt8.toNat_ofNat']
      omega
    have hchar : c = '\n' := by
      rw [← Char.ofNat_toNat c, ← hnat]
      rfl
    exact h (hchar ▸ hc)
  · have := Text.le_of_mem_utf8 (Nat.le_of_not_lt hascii) hbyte
    revert this
    decide

/-! ## The pieces of what was written -/

/-- The blocks of a line that fits, and what is behind them. -/
theorem pieces_of_line {line : String} (h : (Text.utf8 line).length ≤ maxLineLength) :
    (fullBlocks (Text.utf8 line)).map Piece.full ++ [.ended (lastBlock (Text.utf8 line))] =
      readAs line := by
  rw [readAs]
  split
  · next hfull =>
      have hone : (Text.utf8 line).length / maxLineLength = 1 := by rw [hfull]; rfl
      rw [fullBlocks, lastBlock, hone, Nat.one_mul, List.drop_eq_nil_of_le hfull.le]
      show [Piece.full (((Text.utf8 line).drop (0 * maxLineLength)).take maxLineLength)] ++ _ = _
      rw [Nat.zero_mul, List.drop_zero, List.take_of_length_le hfull.le]
      rfl
  · next hshort =>
      have hnone : (Text.utf8 line).length / maxLineLength = 0 :=
        Nat.div_eq_of_lt (Nat.lt_of_le_of_ne h hshort)
      rw [fullBlocks, lastBlock, hnone, Nat.zero_mul, List.drop_zero]
      rfl

/-- Every line that was written is read as its pieces. -/
theorem pieces_of_written {messages : List (List String)}
    (h : ∀ message ∈ messages, ∀ line ∈ message, Fits line) :
    piecesOf (written messages) = messages.flatten.flatMap readAs := by
  have hfits : ∀ line ∈ messages.flatten, Fits line := by
    intro line hmem
    obtain ⟨message, hmessage, hline⟩ := List.mem_flatten.1 hmem
    exact h message hmessage line hline
  have hcut : cut [] (written messages) = (messages.flatten.map Text.utf8, []) := by
    have hlines : ∀ bytes ∈ messages.flatten.map Text.utf8, lineFeed ∉ bytes := by
      intro bytes hbytes
      obtain ⟨line, hline, rfl⟩ := List.mem_map.1 hbytes
      exact line_feed_not_mem_utf8 (hfits line hline).unbroken
    have := cut_lines _ hlines
    rwa [List.flatMap_map] at this
  rw [piecesOf, ended_lines_eq_cut, open_line_eq_cut, hcut]
  simp only [full_blocks_nil, last_block_nil, List.map_nil, List.append_nil, Piece.ofOpen, if_true,
    List.flatMap_map]
  refine List.flatMap_congr fun line hline => ?_
  exact pieces_of_line (hfits line hline).length_le

/-! ## Messages of short lines -/

/-- The pieces of a message whose lines are all shorter than 510 bytes. -/
def shortPieces (message : List String) : List Piece :=
  message.map fun line => .ended (Text.utf8 line)

/-- The pieces of short lines have the lines as their texts. -/
theorem texts_of_short_pieces (message : List String) :
    (shortPieces message).map Piece.text = message := by
  have htext : Piece.text ∘ (fun line => .ended (Text.utf8 line)) = id := by
    funext line
    exact Text.lossy_utf8 line
  rw [shortPieces, List.map_map, htext, List.map_id]

/-- A line starts with the sentinel if its piece does. -/
theorem closes_short_piece (sentinel line : String) :
    Piece.closes sentinel (.ended (Text.utf8 line)) = closes sentinel line := by
  show closes sentinel (Text.lossy (Text.utf8 line)) = _
  rw [Text.lossy_utf8]

section
variable {sentinel : String} {message : List String} (h : Sealed sentinel message)
include h

/-- A message of short lines that is sealed is complete. -/
theorem Sealed.complete_short_pieces : isComplete sentinel (shortPieces message) = true := by
  have hclosed := h.closed
  rw [isComplete, shortPieces, List.getLast?_map]
  cases hlast : message.getLast? with
  | none => rw [hlast] at hclosed; cases hclosed
  | some line =>
      rw [hlast] at hclosed
      rw [Option.map_some, Option.any_some, closes_short_piece]
      exact hclosed

/-- A message of short lines that is sealed has the sentinel in no piece but the last. -/
theorem Sealed.uncut_short_pieces : Uncut sentinel (shortPieces message) where
  nonempty := by
    intro hnil
    have hcomplete := h.complete_short_pieces
    rw [hnil] at hcomplete
    cases hcomplete
  uncut := by
    intro p hp
    rw [shortPieces, ← List.map_dropLast] at hp
    obtain ⟨line, hline, rfl⟩ := List.mem_map.1 hp
    rw [closes_short_piece]
    exact h.uncut line hline

end

/-- A message in front of other pieces is cut behind its last piece. -/
theorem messages_of_append {sentinel : String} {message : List Piece}
    (huncut : Uncut sentinel message) (hcomplete : isComplete sentinel message = true)
    (rest : List Piece) :
    messagesOf sentinel (message ++ rest) = message :: messagesOf sentinel rest := by
  induction message with
  | nil => exact absurd rfl huncut.nonempty
  | cons p tail ih =>
      cases tail with
      | nil =>
          have hcloses : p.closes sentinel = true := hcomplete
          rw [List.singleton_append, messagesOf, if_pos hcloses]
      | cons q later =>
          have hopen : p.closes sentinel = false := huncut.uncut p List.mem_cons_self
          have htail : Uncut sentinel (q :: later) :=
            ⟨List.cons_ne_nil q later, fun r hr => huncut.uncut r (List.mem_cons_of_mem p hr)⟩
          have hlast : isComplete sentinel (q :: later) = true := by
            rw [← (htail.cons hopen).2]
            exact hcomplete
          rw [List.cons_append, messagesOf, if_neg (by rw [hopen]; exact Bool.false_ne_true),
            ih htail hlast]

/-- Messages of short lines are cut where one ends and the next one starts. -/
theorem messages_of_short_pieces {sentinel : String} {messages : List (List String)}
    (h : ∀ message ∈ messages, Sealed sentinel message) :
    messagesOf sentinel (messages.map shortPieces).flatten = messages.map shortPieces := by
  induction messages with
  | nil => rfl
  | cons message rest ih =>
      have hfirst := h message List.mem_cons_self
      rw [List.map_cons, List.flatten_cons,
        messages_of_append hfirst.uncut_short_pieces hfirst.complete_short_pieces,
        ih fun other hmem => h other (List.mem_cons_of_mem message hmem)]

/-- What a call gives of a message of short lines is the message. -/
theorem answer_of_short_pieces {sentinel : String} {messages : List (List String)}
    (h : ∀ message ∈ messages, Sealed sentinel message) (n : Nat) :
    answerOf sentinel (messages.map shortPieces)[n]? = wholeAnswer messages[n]? := by
  rw [List.getElem?_map]
  cases hmessage : messages[n]? with
  | none => rfl
  | some message =>
      have hsealed := h message (List.mem_of_getElem? hmessage)
      show Except.ok (readOf sentinel (shortPieces message)) = _
      rw [readOf, texts_of_short_pieces, hsealed.complete_short_pieces]
      rfl

/-! ## Lines of 510 bytes -/

/-- The pieces of lines are as many as the lines only if none has 510 bytes. -/
theorem short_of_length_pieces {lines : List String}
    (h : (lines.flatMap readAs).length = lines.length) :
    ∀ line ∈ lines, (Text.utf8 line).length ≠ maxLineLength := by
  have hle (rest : List String) : rest.length ≤ (rest.flatMap readAs).length := by
    induction rest with
    | nil => exact Nat.le_refl 0
    | cons line rest ih =>
        rw [List.flatMap_cons, List.length_append, List.length_cons, readAs]
        split
        · show rest.length + 1 ≤ 2 + _
          omega
        · show rest.length + 1 ≤ 1 + _
          omega
  induction lines with
  | nil => exact fun line hmem => absurd hmem List.not_mem_nil
  | cons first rest ih =>
      have hrest := hle rest
      rw [List.flatMap_cons, List.length_append, List.length_cons, readAs] at h
      split at h
      · change 2 + _ = _ at h
        omega
      · next hshort =>
          change 1 + _ = _ at h
          intro line hmem
          rcases List.mem_cons.1 hmem with rfl | hmem
          · exact hshort
          · exact ih (by omega) line hmem

/-- Messages of pieces that are read as these messages have these lines, one piece for each. -/
theorem texts_of_answers {sentinel : String} {pieces : List (List Piece)}
    {messages : List (List String)}
    (h : ∀ n : Nat, answerOf sentinel pieces[n]? = wholeAnswer messages[n]?) :
    pieces.map (List.map Piece.text) = messages := by
  refine List.ext_getElem? fun n => ?_
  have hn := h n
  rw [List.getElem?_map]
  cases hpieces : pieces[n]? with
  | none =>
      rw [hpieces] at hn
      cases hmessage : messages[n]? with
      | none => rfl
      | some message => rw [hmessage] at hn; cases hn
  | some piece =>
      rw [hpieces] at hn
      cases hmessage : messages[n]? with
      | none => rw [hmessage] at hn; cases hn
      | some message =>
          rw [hmessage] at hn
          have hread : readOf sentinel piece = ⟨message, true⟩ := Except.ok.inj hn
          exact congrArg (fun read : SentinelMessage => some read.lines) hread

/-! ## Reading what was written -/

section
variable {sentinel : String} {messages : List (List String)} {reads : List ByteRead}
  (hfits : ∀ message ∈ messages, ∀ line ∈ message, Fits line) (hsteady : Steady reads)
  (hbytes : bytesOf reads = written messages)
include hfits hsteady hbytes

/-- A call gives a message of the pieces of the lines. -/
theorem call_after_written (n : Nat) : (callAfter sentinel n reads).1 =
    answerOf sentinel (messagesOf sentinel (messages.flatten.flatMap readAs))[n]? := by
  rw [(call_after_eq sentinel n hsteady).1, hbytes, pieces_of_written hfits]

/-- Messages are given back only if no line has 510 bytes. -/
theorem short_of_gives_back (h : GivesBack sentinel reads messages) :
    ∀ message ∈ messages, ∀ line ∈ message, (Text.utf8 line).length < maxLineLength := by
  have htexts := congrArg List.flatten
    (texts_of_answers fun n => (call_after_written hfits hsteady hbytes n).symm.trans (h n))
  rw [← List.map_flatten, flatten_messages_of] at htexts
  have hlength := congrArg List.length htexts
  rw [List.length_map] at hlength
  intro message hmessage line hline
  refine Nat.lt_of_le_of_ne (hfits message hmessage line hline).length_le ?_
  exact short_of_length_pieces hlength line (List.mem_flatten.2 ⟨message, hmessage, hline⟩)

end

/-- A reader reads what was written as the pieces of the lines, an empty line behind every line of
510 bytes, cut behind each piece that starts with the sentinel. It gives the messages back, each
complete and in order, and then finds the connection closed, exactly if every line is shorter than
510 bytes. -/
theorem gives_back_iff {sentinel : String} {messages : List (List String)}
    (hsealed : ∀ message ∈ messages, Sealed sentinel message)
    (hfits : ∀ message ∈ messages, ∀ line ∈ message, Fits line) {reads : List ByteRead}
    (hsteady : Steady reads) (hbytes : bytesOf reads = written messages) :
    (∀ n, (callAfter sentinel n reads).1 =
      answerOf sentinel (messagesOf sentinel (messages.flatten.flatMap readAs))[n]?) ∧
    (GivesBack sentinel reads messages ↔
      ∀ message ∈ messages, ∀ line ∈ message, (Text.utf8 line).length < maxLineLength) := by
  refine ⟨call_after_written hfits hsteady hbytes, short_of_gives_back hfits hsteady hbytes,
    fun hshort n => ?_⟩
  have hpieces : messages.flatten.flatMap readAs = (messages.map shortPieces).flatten := by
    have hsingle : ∀ line ∈ messages.flatten, readAs line = [.ended (Text.utf8 line)] := by
      intro line hmem
      obtain ⟨message, hmessage, hline⟩ := List.mem_flatten.1 hmem
      rw [readAs, if_neg (hshort message hmessage line hline).ne]
    have hflat : (messages.map shortPieces).flatten =
        messages.flatten.map fun line => .ended (Text.utf8 line) := by
      rw [List.map_flatten]
      rfl
    rw [List.flatMap_congr hsingle, hflat]
    exact List.flatMap_pure_eq_map _ _
  rw [call_after_written hfits hsteady hbytes, hpieces, messages_of_short_pieces hsealed,
    answer_of_short_pieces hsealed]

/-- A line of so many letters. -/
def letters (n : Nat) : String :=
  String.ofList (List.replicate n 'a')

/-- A line of letters has a byte for each of them. -/
theorem length_utf8_letters (n : Nat) : (Text.utf8 (letters n)).length = n := by
  rw [Text.utf8, letters, String.toList_ofList]
  induction n with
  | zero => rfl
  | succ n ih => exact congrArg Nat.succ ih

/-- A line of letters fits up to the longest length. -/
theorem fits_letters {n : Nat} (h : n ≤ maxLineLength) : Fits (letters n) where
  length_le := (length_utf8_letters n).trans_le h
  unbroken := by
    rw [letters, String.toList_ofList]
    intro hmem
    have := List.eq_of_mem_replicate hmem
    revert this
    decide

/-- A line of letters does not start with the sentinel. -/
theorem closes_letters (n : Nat) : closes standard (letters n) = false := by
  rw [closes, letters, String.toList_ofList]
  cases n <;> rfl

/-- A message with an empty line and a line of 509 bytes, and one that is only its sentinel. -/
def shortMessages : List (List String) :=
  [["", letters 509, "[ENDMSG] é"], [standard]]

/-- A message with an empty line and one of 509 bytes is given back, and so is one that is only its
sentinel. -/
theorem gives_back_short_messages :
    (∀ message ∈ shortMessages, Sealed standard message) ∧
      (∀ message ∈ shortMessages, ∀ line ∈ message, Fits line) ∧
      GivesBack standard ((written shortMessages).map .byte) shortMessages := by
  have hsealed : ∀ message ∈ shortMessages, Sealed standard message := by
    refine List.forall_mem_cons.2 ⟨⟨by decide +kernel, ?_⟩,
      List.forall_mem_singleton.2 (by decide +kernel)⟩
    exact List.forall_mem_cons.2 ⟨by decide +kernel,
      List.forall_mem_singleton.2 (closes_letters 509)⟩
  have hfits : ∀ message ∈ shortMessages, ∀ line ∈ message, Fits line := by
    refine List.forall_mem_cons.2 ⟨?_,
      List.forall_mem_singleton.2 (List.forall_mem_singleton.2 (by decide +kernel))⟩
    refine List.forall_mem_cons.2 ⟨by decide +kernel, List.forall_mem_cons.2 ⟨?_,
      List.forall_mem_singleton.2 (by decide +kernel)⟩⟩
    exact fits_letters (by decide)
  have hshort : ∀ message ∈ shortMessages, ∀ line ∈ message,
      (Text.utf8 line).length < maxLineLength := by
    refine List.forall_mem_cons.2 ⟨?_,
      List.forall_mem_singleton.2 (List.forall_mem_singleton.2 (by decide +kernel))⟩
    refine List.forall_mem_cons.2 ⟨by decide +kernel, List.forall_mem_cons.2 ⟨?_,
      List.forall_mem_singleton.2 (by decide +kernel)⟩⟩
    rw [length_utf8_letters]
    decide
  obtain ⟨_, hback⟩ :=
    gives_back_iff hsealed hfits (steady_map_byte (written shortMessages)) (bytes_of_map_byte _)
  exact ⟨hsealed, hfits, hback.2 hshort⟩

/-- Behind a line of 510 bytes an empty line is read. -/
theorem call_after_full_line {line : String} (hfits : Fits line)
    (hfull : (Text.utf8 line).length = maxLineLength) (hopen : closes standard line = false) :
    (callAfter standard 0 ((written [[line, standard]]).map .byte)).1 =
      .ok ⟨[line, "", standard], true⟩ := by
  have hall : ∀ message ∈ [[line, standard]], ∀ line ∈ message, Fits line :=
    List.forall_mem_singleton.2 (List.forall_mem_cons.2
      ⟨hfits, List.forall_mem_singleton.2 (by decide +kernel)⟩)
  have hpieces : [[line, standard]].flatten.flatMap readAs =
      [.full (Text.utf8 line), .ended [], .ended (Text.utf8 standard)] := by
    show readAs line ++ (readAs standard ++ []) = _
    rw [readAs, if_pos hfull]
    rfl
  have hcloses : Piece.closes standard (.full (Text.utf8 line)) = false := by
    show closes standard (Text.lossy (Text.utf8 line)) = false
    rw [Text.lossy_utf8, hopen]
  have hrest : messagesOf standard [.ended [], .ended (Text.utf8 standard)] =
      [[.ended [], .ended (Text.utf8 standard)]] := by decide +kernel
  rw [call_after_written hall (steady_map_byte _) (bytes_of_map_byte _), hpieces, messagesOf,
    hcloses, hrest]
  show Except.ok (SentinelMessage.mk [Text.lossy (Text.utf8 line), Text.lossy [],
    Text.lossy (Text.utf8 standard)] (Piece.closes standard (.ended (Text.utf8 standard)))) = _
  have hempty : Text.lossy [] = "" := by decide +kernel
  have hsentinel : closes standard standard = true := by decide +kernel
  rw [closes_short_piece, Text.lossy_utf8, Text.lossy_utf8, hempty, hsentinel]

/-- A message whose first line has 510 bytes. -/
def fullMessage : List String :=
  [letters maxLineLength, standard]

/-- A message within the limit is not given back if a line of it is as long as the limit. -/
theorem full_message_gains_empty_line :
    Sealed standard fullMessage ∧ (∀ line ∈ fullMessage, Fits line) ∧
      (callAfter standard 0 ((written [fullMessage]).map .byte)).1 =
        .ok ⟨[letters maxLineLength, "", standard], true⟩ ∧
      ¬ GivesBack standard ((written [fullMessage]).map .byte) [fullMessage] := by
  have hfits : Fits (letters maxLineLength) := fits_letters (Nat.le_refl _)
  have hopen : ∀ line ∈ fullMessage.dropLast, closes standard line = false :=
    List.forall_mem_singleton.2 (closes_letters maxLineLength)
  have hcall := call_after_full_line hfits (length_utf8_letters maxLineLength)
    (closes_letters maxLineLength)
  refine ⟨⟨by decide +kernel, hopen⟩, ?_, hcall, fun hback => ?_⟩
  · exact List.forall_mem_cons.2 ⟨hfits, List.forall_mem_singleton.2 (by decide +kernel)⟩
  · have hlines := congrArg SentinelMessage.lines (Except.ok.inj ((hback 0).symm.trans hcall))
    exact absurd (congrArg List.length hlines) (by decide)

end Sentinel

end EngineLink
