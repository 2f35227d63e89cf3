import EngineLink.Proofs.Framing.Messages
import Mathlib.Logic.Relation

/-!
# Interrupted reads and cut data

What a reader gives does not depend on how the bytes of its stream were cut into segments, nor on
the reads that a signal interrupted. Any other failure ends the call that meets it, and the calls
behind it see what follows the failure as they would see a stream of its own.

Read `Segment.Alike` and `Reader` first: between its calls a reader keeps the bytes of the last line
in a buffer. `ask_heard` says that signals are not seen, `Reader.ask_eq` that the buffer is not, and
`ask_meets` what a call has to do with the failures that it reads.
-/

namespace EngineLink

/-! ## Streams that differ in what is not seen -/

/-- The second script has one more interrupted read than the first, or one more cut in its data. -/
inductive Segment.Finer : List Segment → List Segment → Prop where
  | signal (before after : List Segment) {e : SystemError} (h : e.isInterrupted = true) :
      Finer (before ++ after) (before ++ .failure e :: after)
  | cut (before after : List Segment) (first second : List UInt8) :
      Finer (before ++ .data (first ++ second) :: after)
        (before ++ .data first :: .data second :: after)

/-- The scripts are the same but for interrupted reads and for the places where data is cut. -/
def Segment.Alike : List Segment → List Segment → Prop :=
  Relation.EqvGen Segment.Finer

namespace ByteRead

/-- A signal made the read fail. -/
def isSignal : ByteRead → Bool
  | failed e => e.isInterrupted
  | _ => false

/-- The failure of a read that failed by itself. -/
def fault? : ByteRead → Option SystemError
  | failed e => if e.isInterrupted then none else some e
  | _ => none

end ByteRead

/-- The reads of a stream without those that a signal interrupted. -/
def heard (stream : List ByteRead) : List ByteRead :=
  stream.filter fun r => !r.isSignal

/-- A byte is heard. -/
@[simp] theorem heard_byte (b : UInt8) (rest : List ByteRead) :
    heard (.byte b :: rest) = .byte b :: heard rest := rfl

/-- The end of a stream is heard. -/
@[simp] theorem heard_ended (rest : List ByteRead) :
    heard (.ended :: rest) = .ended :: heard rest := rfl

/-- An interrupted read is not heard. -/
theorem heard_signal {e : SystemError} (h : e.isInterrupted = true) (rest : List ByteRead) :
    heard (.failed e :: rest) = heard rest :=
  List.filter_cons_of_neg (by simpa [ByteRead.isSignal] using h)

/-- Any other failure is heard. -/
theorem heard_fault {e : SystemError} (h : e.isInterrupted = false) (rest : List ByteRead) :
    heard (.failed e :: rest) = .failed e :: heard rest :=
  List.filter_cons_of_pos (by simpa [ByteRead.isSignal] using h)

/-- What is heard of two streams one behind the other is heard of each. -/
theorem heard_append (first second : List ByteRead) :
    heard (first ++ second) = heard first ++ heard second := by
  rw [heard, List.filter_append]
  rfl

/-- Signals bring no bytes. -/
theorem byte_count_heard (stream : List ByteRead) :
    byteCount (heard stream) = byteCount stream := by
  rw [byteCount, heard, List.countP_filter, byteCount]
  refine List.countP_congr fun r _ => ?_
  cases r <;> simp [ByteRead.isSignal]

/-- Scripts one behind the other make the reads of each. -/
theorem all_reads_append (first second : List Segment) :
    Segment.allReads (first ++ second) = Segment.allReads first ++ Segment.allReads second :=
  List.flatMap_append

/-- A script makes the reads of its first segment and then those of the rest. -/
theorem all_reads_cons (s : Segment) (rest : List Segment) :
    Segment.allReads (s :: rest) = s.reads ++ Segment.allReads rest :=
  List.flatMap_cons

/-- Scripts that are alike give the same reads but for the interrupted ones. -/
theorem Segment.Alike.heard_eq {first second : List Segment} (h : Alike first second) :
    heard (allReads first) = heard (allReads second) := by
  induction h with
  | rel _ _ hfiner =>
      cases hfiner with
      | signal before after hsignal =>
          rw [all_reads_append, all_reads_append, all_reads_cons, heard_append, heard_append,
            Segment.reads, List.singleton_append, heard_signal hsignal]
      | cut before after first second =>
          simp only [all_reads_append, all_reads_cons, Segment.reads, List.map_append,
            List.append_assoc]
  | refl => rfl
  | symm _ _ _ ih => exact ih.symm
  | trans _ _ _ _ _ ihfirst ihsecond => exact ihfirst.trans ihsecond

/-! ## Interrupted reads -/

/-- A line at the longest length has no need of a further read. -/
theorem take_line_of_long {held : List UInt8} (hheld : maxLineLength ≤ held.length)
    (stream : List ByteRead) : takeLine held stream = (.line held, stream) := by
  cases stream with
  | nil =>
      have hne : held ≠ [] := by
        rintro rfl
        exact absurd hheld (by decide)
      rw [takeLine, if_neg hne]
  | cons r rest =>
      unfold takeLine
      exact if_pos hheld

/-- A line is gathered as if the interrupted reads were not there. -/
theorem take_line_heard (held : List UInt8) (stream : List ByteRead) :
    takeLine held (heard stream) =
      ((takeLine held stream).1, heard (takeLine held stream).2) := by
  fun_induction takeLine held stream with
  | case1 held => rfl
  | case2 held r rest hfull => exact take_line_of_long hfull _
  | case3 held rest hroom => rw [heard_ended, takeLine, if_neg hroom]
  | case4 held rest hroom e hsignal ih => rw [heard_signal hsignal, ih]
  | case5 held rest hroom e hfault =>
      have hfault := Bool.eq_false_iff.2 hfault
      rw [heard_fault hfault, take_line_failed (Nat.lt_of_not_le hroom) hfault]
  | case6 held rest hroom =>
      rw [heard_byte, take_line_byte (Nat.lt_of_not_le hroom)]
      rfl
  | case7 held rest hroom b hb ih =>
      rw [heard_byte, take_line_byte (Nat.lt_of_not_le hroom), if_neg (show ¬b = lineFeed from hb),
        ih]

namespace Sentinel

/-- A line is read as if the interrupted reads were not there. -/
theorem read_line_heard (stream : List ByteRead) :
    readLine (heard stream) = ((readLine stream).1, heard (readLine stream).2) := by
  rw [readLine, take_line_heard, readLine]
  obtain ⟨result, rest⟩ := takeLine [] stream
  cases result <;> rfl

/-- The lines of a message are gathered as if the interrupted reads were not there. -/
theorem gather_heard (sentinel : String) (stream : List ByteRead) :
    gather sentinel (heard stream) =
      { gather sentinel stream with rest := heard (gather sentinel stream).rest } := by
  induction hlength : stream.length using Nat.strongRecOn generalizing stream with
  | ind n ih =>
      have hheard := read_line_heard stream
      cases hread : readLine stream with
      | mk result rest =>
          rw [hread] at hheard
          cases result with
          | error e => rw [gather_of_failure hread, gather_of_failure hheard]
          | ok line? =>
              cases line? with
              | none => rw [gather_of_end hread, gather_of_end hheard]
              | some line =>
                  have hshorter := hlength ▸ read_line_length_lt hread
                  rw [gather_of_line hread, gather_of_line hheard, ih _ hshorter rest rfl]
                  split <;> rfl

/-! ## Calls -/

/-- What a caller asks of a reader. -/
inductive Call where
  | line
  | message
  deriving DecidableEq

/-- What a call gives. -/
inductive Answer where
  | line (result : Except SystemError (Option String))
  | message (result : Except FrameError SentinelMessage)
  deriving DecidableEq

/-- The failure of the stream that a call gives, in place of all that it gathered. -/
def Answer.failure? : Answer → Option SystemError
  | line (.error e) => some e
  | message (.error (.system e)) => some e
  | _ => none

/-- What a call gives on a stream, and the stream that it leaves. -/
def ask (sentinel : String) : Call → List ByteRead → Answer × List ByteRead
  | .line, stream => (.line (readLine stream).1, (readLine stream).2)
  | .message, stream => (.message (readMessage sentinel stream).1, (readMessage sentinel stream).2)

/-- No call sees the interrupted reads. -/
theorem ask_heard (sentinel : String) (call : Call) (stream : List ByteRead) :
    ask sentinel call (heard stream) =
      ((ask sentinel call stream).1, heard (ask sentinel call stream).2) := by
  cases call with
  | line => rw [ask, read_line_heard, ask]
  | message =>
      rw [ask, readMessage, gather_heard, ask, readMessage]
      rfl

/-! ## Failures -/

/-- Of these reads none failed by itself but the last one, if there is a failure, and that one
failed with it. -/
def Meets (failure? : Option SystemError) (used : List ByteRead) : Prop :=
  match failure? with
  | none => ∀ r ∈ used, r.fault? = none
  | some e => ∃ front, used = front ++ [.failed e] ∧ e.isInterrupted = false ∧
      ∀ r ∈ front, r.fault? = none

/-- Where no read is made, none fails. -/
theorem meets_nil : Meets none [] :=
  fun _ hr => absurd hr List.not_mem_nil

/-- Reads that do not fail may stand in front of others. -/
theorem Meets.append {failure? : Option SystemError} {first used : List ByteRead}
    (hfirst : Meets none first) (h : Meets failure? used) : Meets failure? (first ++ used) := by
  cases failure? with
  | none =>
      intro r hr
      exact (List.mem_append.1 hr).elim (hfirst r) (h r)
  | some e =>
      obtain ⟨front, rfl, hfault, hfront⟩ := h
      refine ⟨first ++ front, (List.append_assoc _ _ _).symm, hfault, fun r hr => ?_⟩
      exact (List.mem_append.1 hr).elim (hfirst r) (hfront r)

/-- A read that does not fail may stand in front of others. -/
theorem Meets.cons {failure? : Option SystemError} {r : ByteRead} {used : List ByteRead}
    (hr : r.fault? = none) (h : Meets failure? used) : Meets failure? (r :: used) := by
  have hfirst : Meets none [r] := fun _ hmem => List.mem_singleton.1 hmem ▸ hr
  exact hfirst.append h

/-- The failure that ended the gathering of a line. -/
def lineFailure? : LineRead → Option SystemError
  | .failed e => some e
  | _ => none

/-- The failure that ended the gathering of a message. -/
def Stop.failure? : Stop → Option SystemError
  | .failed e => some e
  | _ => none

/-- The gathering of a line ends with the first failure that it meets. -/
theorem take_line_meets (held : List UInt8) (stream : List ByteRead) :
    ∃ used, stream = used ++ (takeLine held stream).2 ∧
      Meets (lineFailure? (takeLine held stream).1) used := by
  fun_induction takeLine held stream with
  | case1 held =>
      refine ⟨[], rfl, ?_⟩
      by_cases hempty : held = []
      · rw [if_pos hempty]
        exact meets_nil
      · rw [if_neg hempty]
        exact meets_nil
  | case2 held r rest hfull => exact ⟨[], rfl, meets_nil⟩
  | case3 held rest hroom =>
      refine ⟨[.ended], rfl, ?_⟩
      by_cases hempty : held = []
      · rw [if_pos hempty]
        exact meets_nil.cons rfl
      · rw [if_neg hempty]
        exact meets_nil.cons rfl
  | case4 held rest hroom e hsignal ih =>
      obtain ⟨used, hused, hmeets⟩ := ih
      have hunseen : (ByteRead.failed e).fault? = none := if_pos hsignal
      exact ⟨.failed e :: used, congrArg _ hused, hmeets.cons hunseen⟩
  | case5 held rest hroom e hfault =>
      exact ⟨[.failed e], rfl, [], rfl, Bool.eq_false_iff.2 hfault,
        fun _ hr => absurd hr List.not_mem_nil⟩
  | case6 held rest hroom => exact ⟨[.byte 10], rfl, meets_nil.cons rfl⟩
  | case7 held rest hroom b hb ih =>
      obtain ⟨used, hused, hmeets⟩ := ih
      exact ⟨.byte b :: used, congrArg _ hused, hmeets.cons rfl⟩

/-- The reading of a line ends with the first failure that it meets. -/
theorem read_line_meets (stream : List ByteRead) :
    ∃ used, stream = used ++ (readLine stream).2 ∧
      Meets (Answer.line (readLine stream).1).failure? used := by
  have hline := take_line_meets [] stream
  rw [readLine]
  revert hline
  obtain ⟨result, rest⟩ := takeLine [] stream
  cases result <;> exact id

/-- The gathering of a message ends with the first failure that it meets. -/
theorem gather_meets (sentinel : String) (stream : List ByteRead) :
    ∃ used, stream = used ++ (gather sentinel stream).rest ∧
      Meets (gather sentinel stream).stop.failure? used := by
  induction hlength : stream.length using Nat.strongRecOn generalizing stream with
  | ind n ih =>
      obtain ⟨first, hfirst, hmeets⟩ := read_line_meets stream
      cases hread : readLine stream with
      | mk result rest =>
          rw [hread] at hfirst hmeets
          cases result with
          | error e =>
              rw [gather_of_failure hread]
              exact ⟨first, hfirst, hmeets⟩
          | ok line? =>
              cases line? with
              | none =>
                  rw [gather_of_end hread]
                  exact ⟨first, hfirst, hmeets⟩
              | some line =>
                  rw [gather_of_line hread]
                  split
                  · exact ⟨first, hfirst, hmeets⟩
                  · obtain ⟨used, hused, hlater⟩ :=
                      ih _ (hlength ▸ read_line_length_lt hread) rest rfl
                    refine ⟨first ++ used, ?_, hmeets.append hlater⟩
                    rw [List.append_assoc, ← hused]
                    exact hfirst

/-- What lines come to fails as their gathering did. -/
theorem failure_of_result (g : Gathered) :
    (Answer.message g.result).failure? = g.stop.failure? := by
  obtain ⟨lines, stop, rest⟩ := g
  cases stop with
  | closed => rfl
  | ended => by_cases hlines : lines = [] <;> simp [Gathered.result, hlines, Answer.failure?,
      Stop.failure?]
  | failed e => rfl

/-- A call takes its reads off the stream; it fails with the first failure among them, and that one
is the last read that it makes. -/
theorem ask_meets (sentinel : String) (call : Call) (stream : List ByteRead) :
    ∃ used, stream = used ++ (ask sentinel call stream).2 ∧
      Meets (ask sentinel call stream).1.failure? used := by
  cases call with
  | line => exact read_line_meets stream
  | message =>
      obtain ⟨used, hused, hmeets⟩ := gather_meets sentinel stream
      refine ⟨used, hused, ?_⟩
      rwa [ask, readMessage, failure_of_result]

/-! ## A reader with a buffer -/

/-- What was gathered, behind lines that are held. -/
def Gathered.behind (held : List String) (g : Gathered) : Gathered :=
  { g with lines := held ++ g.lines }

/-- A reader between two calls: the bytes of the last line, which stay in its buffer, and what is
left of its stream. -/
structure Reader where
  buffer : List UInt8
  stream : List ByteRead

namespace Reader

/-- A reader that has not been called. -/
def fresh (stream : List ByteRead) : Reader :=
  ⟨[], stream⟩

/-- Gathers a line behind what is in the buffer. What was gathered stays there, also behind a
failure. -/
def fill (buffer : List UInt8) : List ByteRead → LineRead × Reader
  | [] => (if buffer = [] then .ended else .line buffer, ⟨buffer, []⟩)
  | read :: rest =>
      if maxLineLength ≤ buffer.length then (.line buffer, ⟨buffer, read :: rest⟩)
      else match read with
        | .ended => (if buffer = [] then .ended else .line buffer, ⟨buffer, rest⟩)
        | .failed e =>
            if e.isInterrupted then fill buffer rest else (.failed e, ⟨buffer, rest⟩)
        | .byte b =>
            if b = lineFeed then (.line buffer, ⟨buffer, rest⟩) else fill (buffer ++ [b]) rest

/-- Reads one line. The buffer is emptied first. -/
def readLine (r : Reader) : Except SystemError (Option String) × Reader :=
  let cleared : Reader := { r with buffer := [] }
  match fill cleared.buffer cleared.stream with
  | (.line bytes, next) => (.ok (some (Text.lossy bytes)), next)
  | (.ended, next) => (.ok none, next)
  | (.failed e, next) => (.error e, next)

/-- A line is gathered by the buffer as it is from the stream alone. -/
theorem fill_eq (buffer : List UInt8) (stream : List ByteRead) :
    takeLine buffer stream = ((fill buffer stream).1, (fill buffer stream).2.stream) := by
  fun_induction fill buffer stream with
  | case1 => rfl
  | case2 buffer r rest hfull => exact take_line_of_long hfull _
  | case3 buffer rest hroom => rw [takeLine, if_neg hroom]
  | case4 buffer rest hroom e hsignal ih =>
      rw [take_line_signal (Nat.lt_of_not_le hroom) hsignal, ih]
  | case5 buffer rest hroom e hfault =>
      rw [take_line_failed (Nat.lt_of_not_le hroom) (Bool.eq_false_iff.2 hfault)]
  | case6 buffer rest hroom =>
      rw [take_line_byte (Nat.lt_of_not_le hroom), if_pos rfl]
  | case7 buffer rest hroom b hb ih =>
      rw [take_line_byte (Nat.lt_of_not_le hroom), if_neg hb, ih]

/-- The line that is read does not depend on the buffer. -/
theorem read_line_eq (r : Reader) :
    Sentinel.readLine r.stream = (r.readLine.1, r.readLine.2.stream) := by
  rw [Sentinel.readLine, fill_eq, readLine]
  obtain ⟨result, next⟩ := fill [] r.stream
  cases result <;> rfl

/-- Reads lines behind those held of a message until one closes it or there is none. -/
def gather (sentinel : String) (lines : List String) (r : Reader) :
    Except FrameError SentinelMessage × Reader :=
  match _h : r.readLine with
  | (.error e, next) => (.error (.system e), next)
  | (.ok none, next) =>
      (if lines = [] then .error .connectionClosed else .ok ⟨lines, false⟩, next)
  | (.ok (some line), next) =>
      if closes sentinel line then (.ok ⟨lines ++ [line], true⟩, next)
      else gather sentinel (lines ++ [line]) next
termination_by r.stream.length
decreasing_by exact read_line_length_lt (by rw [read_line_eq, _h])

/-- A message is gathered by a reader as it is from its stream alone, behind the lines that are
held. -/
theorem gather_eq (sentinel : String) (lines : List String) (r : Reader) :
    ((Sentinel.gather sentinel r.stream).behind lines).result = (gather sentinel lines r).1 ∧
      (Sentinel.gather sentinel r.stream).rest = (gather sentinel lines r).2.stream := by
  fun_induction gather sentinel lines r with
  | case1 lines r e next h =>
      have hread := read_line_eq r
      rw [h] at hread
      rw [gather_of_failure hread]
      exact ⟨rfl, rfl⟩
  | case2 lines r next h =>
      have hread := read_line_eq r
      rw [h] at hread
      rw [gather_of_end hread, Gathered.behind, List.append_nil]
      exact ⟨rfl, rfl⟩
  | case3 lines r line next h hcloses =>
      have hread := read_line_eq r
      rw [h] at hread
      rw [gather_of_line hread, if_pos hcloses]
      exact ⟨rfl, rfl⟩
  | case4 lines r line next h hopen ih =>
      have hread := read_line_eq r
      rw [h] at hread
      rw [gather_of_line hread, if_neg hopen]
      rwa [Gathered.behind, List.append_assoc] at ih

/-- What a call gives, and the reader behind it. -/
def ask (sentinel : String) : Call → Reader → Answer × Reader
  | .line, r => (.line r.readLine.1, r.readLine.2)
  | .message, r => (.message (r.gather sentinel []).1, (r.gather sentinel []).2)

/-- A call gives what it gives on the stream alone. -/
theorem ask_eq (sentinel : String) (call : Call) (r : Reader) :
    Sentinel.ask sentinel call r.stream =
      ((r.ask sentinel call).1, (r.ask sentinel call).2.stream) := by
  cases call with
  | line => rw [Sentinel.ask, read_line_eq, ask]
  | message =>
      obtain ⟨hresult, hrest⟩ := gather_eq sentinel [] r
      rw [Sentinel.ask, readMessage, ask, ← hresult, ← hrest]
      rfl

/-- What calls give one after another, each with the number of bytes that are taken from the stream
by then, of which the first `taken` were taken before. -/
def answers (sentinel : String) (taken : Nat) (r : Reader) : List Call → List (Answer × Nat)
  | [] => []
  | call :: later =>
      let answer := (r.ask sentinel call).1
      let next := (r.ask sentinel call).2
      let taken := taken + (byteCount r.stream - byteCount next.stream)
      (answer, taken) :: next.answers sentinel taken later

/-- Readers answer alike if their streams are the same but for the interrupted reads. -/
theorem answers_congr (sentinel : String) (calls : List Call) {r s : Reader}
    (h : heard r.stream = heard s.stream) (taken : Nat) :
    r.answers sentinel taken calls = s.answers sentinel taken calls := by
  induction calls generalizing r s taken with
  | nil => rfl
  | cons call later ih =>
      have hasked (q : Reader) : Sentinel.ask sentinel call (heard q.stream) =
          ((q.ask sentinel call).1, heard (q.ask sentinel call).2.stream) := by
        rw [ask_heard, ask_eq]
      have hsame := hasked r
      rw [h, hasked s, Prod.mk.injEq] at hsame
      obtain ⟨hanswer, hnext⟩ := hsame
      have hcount : byteCount r.stream = byteCount s.stream := by
        rw [← byte_count_heard, h, byte_count_heard]
      have hleft : byteCount (r.ask sentinel call).2.stream =
          byteCount (s.ask sentinel call).2.stream := by
        rw [← byte_count_heard, ← hnext, byte_count_heard]
      rw [answers, answers]
      simp only [hanswer, hcount, hleft]
      rw [ih hnext.symm]

end Reader

/-- Calls give the same, and take the same numbers of bytes, on scripts that differ in interrupted
reads and in the cuts of their data. Every call of a reader, whatever is in its buffer, gives what
it gives on the stream that is left. It takes its reads off that stream and gives the first failure
among them, if there is one, which is then its last read; and behind it the reader answers as a
fresh one does on the stream that is left. -/
theorem calls_transparent (sentinel : String) (calls : List Call) :
    (∀ first second, Segment.Alike first second →
      (Reader.fresh (Segment.allReads first)).answers sentinel 0 calls =
        (Reader.fresh (Segment.allReads second)).answers sentinel 0 calls) ∧
    ∀ (r : Reader) (call : Call),
      let answer := (r.ask sentinel call).1
      let next := (r.ask sentinel call).2
      ask sentinel call r.stream = (answer, next.stream) ∧
        (∃ used, r.stream = used ++ next.stream ∧ Meets answer.failure? used) ∧
        ∀ taken, next.answers sentinel taken calls =
          (Reader.fresh next.stream).answers sentinel taken calls := by
  refine ⟨fun first second halike => ?_, fun r call => ?_⟩
  · exact Reader.answers_congr sentinel calls halike.heard_eq 0
  · intro answer next
    have hasked : ask sentinel call r.stream = (answer, next.stream) :=
      Reader.ask_eq sentinel call r
    refine ⟨hasked, ?_, fun taken => ?_⟩
    · have hmeets := ask_meets sentinel call r.stream
      rwa [hasked] at hmeets
    · have hsame : heard next.stream = heard (Reader.fresh next.stream).stream := rfl
      exact Reader.answers_congr sentinel calls hsame taken

/-- A line, the beginning of another one that a reset cuts, and a line that starts with the
sentinel. -/
def cutScript : List Segment :=
  [.data (Text.utf8 "ab\nx"), .failure (.ofKind .connectionReset), .data (Text.utf8 "END\n")]

/-- The same with a signal inside of the first line. -/
def signalledScript : List Segment :=
  [.data (Text.utf8 "a"), .failure (.ofKind .interrupted), .data (Text.utf8 "b\nx"),
    .failure (.ofKind .connectionReset), .data (Text.utf8 "END\n")]

/-- A signal inside of a line changes no answer of a line, a message that a reset cuts, and the
message behind it. -/
theorem calls_transparent_of_signal :
    Segment.Alike cutScript signalledScript ∧
      (Reader.fresh (Segment.allReads signalledScript)).answers "END" 0
          [.line, .message, .message] =
        [(.line (.ok (some "ab")), 3),
          (.message (.error (.system (.ofKind .connectionReset))), 4),
          (.message (.ok ⟨["END"], true⟩), 8)] := by
  have halike : Segment.Alike cutScript signalledScript :=
    .trans _ _ _ (.rel _ _ (.cut [] _ (Text.utf8 "a") (Text.utf8 "b\nx")))
      (.rel _ _ (.signal [.data (Text.utf8 "a")] _ rfl))
  refine ⟨halike, ?_⟩
  rw [← (calls_transparent "END" [.line, .message, .message]).1 _ _ halike]
  decide +kernel

end Sentinel

end EngineLink
