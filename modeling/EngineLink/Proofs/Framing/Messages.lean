import EngineLink.Proofs.Framing.Pieces

/-!
# Messages of lines

A reader takes the lines of a stream up to one that starts with the sentinel. Read `cutMessages`,
`closedMessages` and `finalMessages` first: the messages of a stream in closed form.
`ReadsMessages` says that a reader takes messages one after another, whatever follows them;
`reads_messages` that it takes those of the lines.
-/

namespace EngineLink

namespace Sentinel

/-! ## The messages of a stream -/

/-- Cuts lines behind each one that starts with the sentinel, the first message continuing `held`.
Gives the messages and the lines behind the last one. -/
def cutMessages (sentinel : String) (held : List String) :
    List String → List (List String) × List String
  | [] => ([], held)
  | line :: rest =>
      if closes sentinel line then
        let later := cutMessages sentinel [] rest
        ((held ++ [line]) :: later.1, later.2)
      else cutMessages sentinel (held ++ [line]) rest

/-- The lines that are complete in a stream. -/
def closedLines (stream : List UInt8) : List String :=
  (closedPieces stream).map Text.lossy

/-- The lines of a stream that has ended: a last one need not be complete, but it is not empty. -/
def finalLines (stream : List UInt8) : List String :=
  if openPiece stream = [] then closedLines stream
  else closedLines stream ++ [Text.lossy (openPiece stream)]

/-- The messages that are closed by a line that is complete in a stream. -/
def closedMessages (sentinel : String) (stream : List UInt8) : List (List String) :=
  (cutMessages sentinel [] (closedLines stream)).1

/-- The messages of a stream that has ended: the lines behind the last message that a sentinel
closes are one more, if there are any. -/
def finalMessages (sentinel : String) (stream : List UInt8) : List (List String) :=
  let cut := cutMessages sentinel [] (finalLines stream)
  if cut.2 = [] then cut.1 else cut.1 ++ [cut.2]

/-- One more line closes the last message, or continues it. -/
theorem cut_messages_append (sentinel : String) (held lines : List String) (line : String) :
    cutMessages sentinel held (lines ++ [line]) =
      let cut := cutMessages sentinel held lines
      if closes sentinel line then (cut.1 ++ [cut.2 ++ [line]], [])
      else (cut.1, cut.2 ++ [line]) := by
  induction lines generalizing held with
  | nil =>
      by_cases hclose : closes sentinel line <;> simp [cutMessages, hclose]
  | cons first rest ih =>
      rw [List.cons_append, cutMessages, cutMessages]
      split
      · rw [ih []]
        by_cases hclose : closes sentinel line <;> simp [hclose]
      · exact ih _

/-! ## Reading lines -/

/-- Reading lines from some reads gives these, one after another, and leaves the rest, whatever
follows. -/
inductive ReadsLines : List ByteRead → List String → List ByteRead → Prop
  | nil {reads : List ByteRead} (hsteady : Steady reads) : ReadsLines reads [] reads
  | cons {reads next left : List ByteRead} {line : String} {lines : List String}
      (hsteady : Steady reads)
      (hline : ∀ tail, readLine (reads ++ tail) = (.ok (some line), next ++ tail))
      (hlines : ReadsLines next lines left) : ReadsLines reads (line :: lines) left

namespace ReadsLines

variable {reads next left : List ByteRead} {line : String} {lines : List String}

/-- Lines are read off steady reads. -/
theorem steady (h : ReadsLines reads lines left) : Steady reads := by
  cases h with
  | nil hsteady => exact hsteady
  | cons hsteady => exact hsteady

/-- What lines leave of steady reads is steady. -/
theorem steady_left (h : ReadsLines reads lines left) : Steady left := by
  induction h with
  | nil hsteady => exact hsteady
  | cons _ _ _ ih => exact ih

/-- A line that is read behind others. -/
theorem snoc (h : ReadsLines reads lines next) (hleft : Steady left)
    (hline : ∀ tail, readLine (next ++ tail) = (.ok (some line), left ++ tail)) :
    ReadsLines reads (lines ++ [line]) left := by
  induction h with
  | nil hsteady => exact .cons hsteady hline (.nil hleft)
  | cons hsteady hfirst _ ih => exact .cons hsteady hfirst (ih hline)

end ReadsLines

/-- The lines that are complete in reads are read from them. -/
theorem reads_pieces {pieces : List (List UInt8)} {rest : List UInt8} {reads : List ByteRead}
    (hsteady : Steady reads) (h : takePieces [] (bytesOf reads) = (pieces, rest)) :
    ∃ left, ReadsLines reads (pieces.map Text.lossy) left ∧
      takePieces [] (bytesOf left) = ([], rest) := by
  induction pieces generalizing reads with
  | nil => exact ⟨reads, .nil hsteady, h⟩
  | cons piece pieces ih =>
      obtain ⟨next, hnext, hpieces, hline⟩ := take_line_of_piece hsteady (by decide) h
      obtain ⟨left, hlines, hopen⟩ := ih hnext hpieces
      refine ⟨left, .cons hsteady (fun tail => ?_) hlines, hopen⟩
      rw [readLine, hline]

/-! ## Gathering a message -/

section
variable {sentinel : String} {stream rest : List ByteRead}

/-- Gathering goes by what the next line is. -/
theorem gather_eq (sentinel : String) (stream : List ByteRead) :
    gather sentinel stream = match readLine stream with
      | (.error e, rest) => ⟨[], .failed e, rest⟩
      | (.ok none, rest) => ⟨[], .ended, rest⟩
      | (.ok (some line), rest) =>
          if closes sentinel line then ⟨[line], .closed, rest⟩
          else { gather sentinel rest with lines := line :: (gather sentinel rest).lines } := by
  rw [gather]
  split
  · next heq => rw [heq]
  · next heq => rw [heq]
  · next heq => rw [heq]

/-- A line closes its message, or the message goes on with the lines behind it. -/
theorem gather_of_line {line : String} (h : readLine stream = (.ok (some line), rest)) :
    gather sentinel stream =
      if closes sentinel line then ⟨[line], .closed, rest⟩
      else { gather sentinel rest with lines := line :: (gather sentinel rest).lines } := by
  rw [gather_eq, h]

/-- Where no line is left, a message has none. -/
theorem gather_of_end (h : readLine stream = (.ok none, rest)) :
    gather sentinel stream = ⟨[], .ended, rest⟩ := by
  rw [gather_eq, h]

/-- A failure in place of a line ends a message without one. -/
theorem gather_of_failure {e : SystemError} (h : readLine stream = (.error e, rest)) :
    gather sentinel stream = ⟨[], .failed e, rest⟩ := by
  rw [gather_eq, h]

/-- Lines that do not start with the sentinel are gathered in front of those behind them. -/
theorem gather_of_lines {reads left : List ByteRead} {lines : List String}
    (h : ReadsLines reads lines left) (hopen : ∀ line ∈ lines, closes sentinel line = false)
    (tail : List ByteRead) :
    gather sentinel (reads ++ tail) =
      { gather sentinel (left ++ tail) with
        lines := lines ++ (gather sentinel (left ++ tail)).lines } := by
  induction h with
  | nil => rfl
  | cons _ hline _ ih =>
      have hrest := ih fun line hmem => hopen line (List.mem_cons_of_mem _ hmem)
      rw [gather_of_line (hline tail), hopen _ List.mem_cons_self, hrest]
      rfl

end

/-! ## Reading messages -/

/-- Reading messages from some reads gives these, one after another and each closed by the
sentinel, and leaves the rest, whatever follows. -/
inductive ReadsMessages (sentinel : String) :
    List ByteRead → List (List String) → List ByteRead → Prop
  | nil {reads : List ByteRead} : ReadsMessages sentinel reads [] reads
  | cons {reads next left : List ByteRead} {lines : List String} {messages : List (List String)}
      (hmessage : ∀ tail,
        readMessage sentinel (reads ++ tail) = (.ok ⟨lines, true⟩, next ++ tail))
      (hmessages : ReadsMessages sentinel next messages left) :
      ReadsMessages sentinel reads (lines :: messages) left

/-- The messages in lines are read, and the lines behind the last one are left. -/
theorem reads_messages {sentinel : String} {start reads left : List ByteRead}
    {held lines : List String} (hheld : ReadsLines start held reads)
    (hopen : ∀ line ∈ held, closes sentinel line = false) (h : ReadsLines reads lines left) :
    ∃ last, ReadsMessages sentinel start (cutMessages sentinel held lines).1 last ∧
      ReadsLines last (cutMessages sentinel held lines).2 left ∧
      ∀ line ∈ (cutMessages sentinel held lines).2, closes sentinel line = false := by
  -- the lines held are those that the message being gathered has so far, read from `start` on
  induction h generalizing start held with
  | nil => exact ⟨start, .nil, hheld, hopen⟩
  | @cons reads next left line lines hsteady hline hlines ih =>
      rw [cutMessages]
      split
      · next hclose =>
          obtain ⟨last, hmessages, hlast, hlines⟩ :=
            ih (.nil hlines.steady) (fun line hmem => absurd hmem List.not_mem_nil)
          refine ⟨last, .cons (fun tail => ?_) hmessages, hlast, hlines⟩
          rw [readMessage, gather_of_lines hheld hopen, gather_of_line (hline tail), if_pos hclose]
          rfl
      · next hclose =>
          refine ih (hheld.snoc hlines.steady hline) fun other hmem => ?_
          rcases List.mem_append.1 hmem with hmem | hmem
          · exact hopen other hmem
          · rw [List.mem_singleton.1 hmem]
            exact Bool.eq_false_iff.2 hclose

/-- The messages that are closed in reads are read from them, and then the lines behind them. -/
theorem reads_closed_messages (sentinel : String) {reads : List ByteRead} (hsteady : Steady reads) :
    ∃ last left, ReadsMessages sentinel reads (closedMessages sentinel (bytesOf reads)) last ∧
      ReadsLines last (cutMessages sentinel [] (closedLines (bytesOf reads))).2 left ∧
      (∀ line ∈ (cutMessages sentinel [] (closedLines (bytesOf reads))).2,
        closes sentinel line = false) ∧
      takePieces [] (bytesOf left) = ([], openPiece (bytesOf reads)) := by
  obtain ⟨left, hlines, hopen⟩ := reads_pieces hsteady (take_pieces_eq (bytesOf reads))
  have hnone : ∀ line ∈ ([] : List String), closes sentinel line = false :=
    fun line hmem => absurd hmem List.not_mem_nil
  obtain ⟨last, hmessages, hlast, hclosed⟩ := reads_messages (.nil hsteady) hnone hlines
  exact ⟨last, left, hmessages, hlast, hclosed, hopen⟩

/-! ## The last message -/

section
variable {sentinel : String} {reads last left : List ByteRead} {lines : List String}
  {rest : List UInt8} (hlines : ReadsLines last lines left)
  (hopen : ∀ line ∈ lines, closes sentinel line = false)
  (hrest : takePieces [] (bytesOf left) = ([], rest))
include hlines hopen hrest

/-- A failure drops the lines in front of it. -/
theorem read_message_of_failure {e : SystemError} (hsignal : e.isInterrupted = false)
    (tail : List ByteRead) :
    readMessage sentinel (last ++ .failed e :: tail) = (.error (.system e), tail) := by
  obtain ⟨hroom, hline⟩ :=
    take_line_of_open hlines.steady_left (by decide) hrest (.failed e :: tail)
  rw [take_line_failed hroom hsignal] at hline
  have hfailed : readLine (left ++ .failed e :: tail) = (.error e, tail) := by
    rw [readLine, hline]
  rw [readMessage, gather_of_lines hlines hopen, gather_of_failure hfailed]
  rfl

/-- The end of the stream makes a message of the lines in front of it, if there are any. -/
theorem read_message_of_end :
    readMessage sentinel last =
      if rest = [] then
        if lines = [] then (.error .connectionClosed, []) else (.ok ⟨lines, false⟩, [])
      else (.ok ⟨lines ++ [Text.lossy rest], closes sentinel (Text.lossy rest)⟩, []) := by
  obtain ⟨_, hline⟩ := take_line_of_open hlines.steady_left (by decide) hrest []
  have hgather := gather_of_lines hlines hopen []
  rw [List.append_nil, List.append_nil] at hgather
  rw [List.append_nil] at hline
  rw [readMessage, hgather]
  by_cases hempty : rest = []
  · -- the stream ends behind a line, so the lines in front are all there is
    rw [takeLine, if_pos hempty] at hline
    have hend : readLine left = (.ok none, []) := by rw [readLine, hline]
    rw [gather_of_end hend, if_pos hempty]
    by_cases hnone : lines = []
    · simp [Gathered.result, hnone]
    · simp [Gathered.result, hnone]
  · -- the end of the stream ends a last line, which may be the sentinel
    rw [takeLine, if_neg hempty] at hline
    have hlast : readLine left = (.ok (some (Text.lossy rest)), []) := by rw [readLine, hline]
    have hend : gather sentinel [] = ⟨[], .ended, []⟩ := gather_of_end rfl
    rw [gather_of_line hlast, hend, if_neg hempty]
    by_cases hclose : closes sentinel (Text.lossy rest)
    · simp [Gathered.result, hclose]
    · simp [Gathered.result, hclose]

end

/-- The messages of a stream that has ended are those that a sentinel closes, and what the end of
the stream makes of the lines behind them. -/
theorem final_messages_eq (sentinel : String) (stream : List UInt8) :
    finalMessages sentinel stream = closedMessages sentinel stream ++
      let lines := (cutMessages sentinel [] (closedLines stream)).2
      if openPiece stream = [] then if lines = [] then [] else [lines]
      else [lines ++ [Text.lossy (openPiece stream)]] := by
  unfold finalMessages finalLines closedMessages
  by_cases hempty : openPiece stream = []
  · simp only [hempty, if_true]
    split <;> simp
  · simp only [hempty, if_false, cut_messages_append]
    by_cases hclose : closes sentinel (Text.lossy (openPiece stream)) <;> simp [hclose]

end Sentinel

end EngineLink
