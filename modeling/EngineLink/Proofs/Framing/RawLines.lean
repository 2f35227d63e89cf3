import EngineLink.Proofs.Framing.Messages
import EngineLink.Proofs.Text.IllFormed

/-!
# Sentinels in lines of any bytes

A reader looks for the sentinel in the text of a line, where parts that are no UTF-8 have been
replaced. It finds what a reader would find that looks at the bytes as they came: no ill-formed
part makes a sentinel and none hides one, unless the replacement character is in the sentinel
itself. Read `TakesLines` first: the lines of a stream as bytes. `closes_lossy_iff` speaks of one
line, `complete_iff_bytes` of the messages that are read.
-/

namespace EngineLink

namespace Sentinel

/-! ## One line -/

/-- The text of a line starts with the sentinel exactly if its bytes do. -/
theorem closes_lossy_iff {sentinel : String} (hplain : Text.replacement ∉ sentinel.toList)
    (line : List UInt8) :
    closes sentinel (Text.lossy line) = true ↔ Text.utf8 sentinel <+: line := by
  rw [closes, Text.lossy, String.toList_ofList, List.isPrefixOf_iff_prefix, Text.utf8]
  exact Text.prefix_lossy_chars_iff hplain line

/-! ## Lines as bytes -/

/-- These lines are taken from the stream one after another, as the bytes that came, and the rest
of it is left. -/
inductive TakesLines : List ByteRead → List (List UInt8) → List ByteRead → Prop
  | nil (stream : List ByteRead) : TakesLines stream [] stream
  | cons {stream next rest : List ByteRead} {line : List UInt8} {lines : List (List UInt8)}
      (hline : takeLine [] stream = (.line line, next)) (hlines : TakesLines next lines rest) :
      TakesLines stream (line :: lines) rest

/-- A line that is read is the text of one that is taken. -/
theorem taken_of_read_line {stream next : List ByteRead} {text : String}
    (h : readLine stream = (.ok (some text), next)) :
    ∃ line, takeLine [] stream = (.line line, next) ∧ text = Text.lossy line := by
  rw [readLine] at h
  split at h
  · next line rest hline =>
      cases h
      exact ⟨line, hline, rfl⟩
  · cases h
  · cases h

/-- Lines that are taken up to the first one that closes the message are gathered as their texts. -/
theorem gather_of_taken {sentinel : String} {stream rest : List ByteRead}
    {front : List (List UInt8)} {last : List UInt8}
    (hopen : ∀ line ∈ front, closes sentinel (Text.lossy line) = false)
    (hclose : closes sentinel (Text.lossy last) = true)
    (h : TakesLines stream (front ++ [last]) rest) :
    gather sentinel stream = ⟨(front ++ [last]).map Text.lossy, .closed, rest⟩ := by
  induction front generalizing stream with
  | nil =>
      obtain _ | ⟨hline, _ | _⟩ := h
      rw [gather_of_line (by rw [readLine, hline]), if_pos hclose]
      rfl
  | cons line front ih =>
      obtain _ | ⟨hline, hlines⟩ := h
      have hfirst : ¬ closes sentinel (Text.lossy line) = true :=
        Bool.eq_false_iff.1 (hopen line List.mem_cons_self)
      have hlater := ih (fun other hmem => hopen other (List.mem_cons_of_mem line hmem)) hlines
      rw [gather_of_line (by rw [readLine, hline]), if_neg hfirst, hlater]
      rfl

/-- The lines of a message that was closed were taken from the stream, and the last one of them is
the first that closes it. -/
theorem taken_of_gather {sentinel : String} {stream : List ByteRead}
    (h : (gather sentinel stream).stop = .closed) :
    ∃ front last, TakesLines stream (front ++ [last]) (gather sentinel stream).rest ∧
      (gather sentinel stream).lines = (front ++ [last]).map Text.lossy ∧
      (∀ line ∈ front, closes sentinel (Text.lossy line) = false) ∧
      closes sentinel (Text.lossy last) = true := by
  fun_induction gather sentinel stream with
  | case1 stream e rest hread => cases h
  | case2 stream rest hread => cases h
  | case3 stream text rest hread hclose =>
      obtain ⟨line, hline, rfl⟩ := taken_of_read_line hread
      exact ⟨[], line, .cons hline (.nil rest), rfl, List.forall_mem_nil _, hclose⟩
  | case4 stream text rest hread hopen later ih =>
      obtain ⟨line, hline, rfl⟩ := taken_of_read_line hread
      obtain ⟨front, last, htaken, hlines, hunclosed, hclose⟩ := ih h
      refine ⟨line :: front, last, .cons hline htaken, congrArg _ hlines, ?_, hclose⟩
      exact List.forall_mem_cons.2 ⟨Bool.eq_false_iff.2 hopen, hunclosed⟩

/-! ## Messages -/

/-- Lines make a complete message exactly if the last one closes it. -/
theorem result_complete_iff (g : Gathered) (texts : List String) :
    g.result = .ok ⟨texts, true⟩ ↔ g.lines = texts ∧ g.stop = .closed := by
  obtain ⟨lines, stop, rest⟩ := g
  cases stop with
  | closed => simp [Gathered.result]
  | ended => by_cases hlines : lines = [] <;> simp [Gathered.result, hlines]
  | failed e => simp [Gathered.result]

/-- A message is complete exactly if it is the texts of lines taken from the stream, and the last
one is the first whose text starts with the sentinel. -/
theorem read_message_complete_iff (sentinel : String) (stream rest : List ByteRead)
    (texts : List String) :
    readMessage sentinel stream = (.ok ⟨texts, true⟩, rest) ↔
      ∃ front last, TakesLines stream (front ++ [last]) rest ∧
        texts = (front ++ [last]).map Text.lossy ∧
        (∀ line ∈ front, closes sentinel (Text.lossy line) = false) ∧
        closes sentinel (Text.lossy last) = true := by
  rw [readMessage, Prod.mk.injEq, result_complete_iff]
  constructor
  · rintro ⟨⟨rfl, hclosed⟩, rfl⟩
    exact taken_of_gather hclosed
  · rintro ⟨front, last, htaken, rfl, hopen, hclose⟩
    rw [gather_of_taken hopen hclose htaken]
    exact ⟨⟨rfl, rfl⟩, rfl⟩

/-- Decoding is not seen in where messages end. Whatever its bytes are, the text of a line starts
with a sentinel that has no replacement character exactly if the bytes start with those of the
sentinel. So a reader gives a complete message, on any stream, exactly if the last one of the lines
that it takes is the first whose bytes start with those of the sentinel: no other line closes a
message, and no line that has them fails to. -/
theorem complete_iff_bytes {sentinel : String} (hplain : Text.replacement ∉ sentinel.toList) :
    (∀ line : List UInt8,
      closes sentinel (Text.lossy line) = true ↔ Text.utf8 sentinel <+: line) ∧
    ∀ (stream rest : List ByteRead) (texts : List String),
      readMessage sentinel stream = (.ok ⟨texts, true⟩, rest) ↔
        ∃ front last, TakesLines stream (front ++ [last]) rest ∧
          texts = (front ++ [last]).map Text.lossy ∧
          (∀ line ∈ front, ¬ Text.utf8 sentinel <+: line) ∧
          Text.utf8 sentinel <+: last := by
  refine ⟨closes_lossy_iff hplain, fun stream rest texts => ?_⟩
  simp only [read_message_complete_iff, ← Bool.not_eq_true, closes_lossy_iff hplain]

/-- A character that breaks off, one that breaks off in front of the rest of the sentinel, and the
sentinel in front of a byte that is in no character. -/
def brokenLines : List UInt8 :=
  [0xC3, 10, 0xC3, 0x21, 10, 0xC3, 0xA9, 0x21, 0xFF, 10, 0x61]

/-- Neither a character that breaks off nor one in front of the rest of the sentinel makes a message
end, and a byte behind the sentinel that is in no character does not keep it from ending. -/
theorem complete_of_broken_lines :
    Text.replacement ∉ "é!".toList ∧
      readMessage "é!" (brokenLines.map .byte) =
        (.ok ⟨["\uFFFD", "\uFFFD!", "é!\uFFFD"], true⟩, [.byte 0x61]) := by
  have hplain : Text.replacement ∉ "é!".toList := by decide +kernel
  refine ⟨hplain, ((complete_iff_bytes hplain).2 _ _ _).2
    ⟨[[0xC3], [0xC3, 0x21]], [0xC3, 0xA9, 0x21, 0xFF], ?_, ?_, ?_, ?_⟩⟩
  · exact .cons rfl (.cons rfl (.cons rfl (.nil _)))
  · decide +kernel
  · decide +kernel
  · decide +kernel

end Sentinel

end EngineLink
