import EngineLink.Program.Sampler
import EngineLink.Telemetry.Latest
import EngineLink.Telemetry.Reader
import Mathlib.Data.List.Chain

/-!
# A telemetry command beside its reader

One thread reads a telemetry stream and stores its data points in a cell, and the telemetry
command samples the cell, in any interleaving of their steps. The command asks first whether the
stream is still read and looks at the cell afterwards, so a stream that has ended leaves nothing
that it has not seen. Read `Watch.step` and `Watch.Sound` first; `Watch.run_prints_last` is the
result.
-/

namespace EngineLink

open Telemetry (DataPoint Latest)

/-- Where the command stands in a round of its loop. -/
inductive Place
  /-- The round has not started. -/
  | resting
  /-- It was asked whether the stream is still read. -/
  | asked (reading : Bool)
  /-- The cell was looked at. -/
  | sampled (reading : Bool) (point : DataPoint)
  /-- What there was to print is printed. -/
  | shown (progress : Sampler.Progress)
  /-- The command has left its loop. -/
  | left
  deriving DecidableEq

/-- A telemetry command that prints without limit, and the reader of its stream. -/
structure Watch where
  /-- The data points that the reader has not stored yet. -/
  pending : List DataPoint
  cell : Latest DataPoint
  /-- The thread of the reader has finished. -/
  finished : Bool
  sampler : Sampler
  place : Place
  /-- The data points that were stored, in order. -/
  stored : List DataPoint
  /-- What was printed, in order. -/
  printed : List (Nat × DataPoint)

/-- Whose turn it is, and what the reader does at its turn. -/
inductive Turn
  /-- The reader stores its next data point. -/
  | store
  /-- The thread of the reader finishes, which it can once nothing is left to store. -/
  | finish
  /-- The command makes the next step of its loop. -/
  | command
  deriving DecidableEq

namespace Watch

/-- A command and a reader that has these data points to store, before their first steps. -/
def start (points : List DataPoint) : Watch :=
  ⟨points, ⟨.empty⟩, false, .start, .resting, [], []⟩

/-- The reader stores its next data point, if there is one. -/
def store (w : Watch) : Watch :=
  match w.pending with
  | [] => w
  | point :: rest =>
      { w with
        pending := rest
        cell := (w.cell.replace point).1
        stored := w.stored ++ [point] }

/-- The reader finishes, unless it has something to store. -/
def finish (w : Watch) : Watch :=
  if w.pending = [] then { w with finished := true } else w

/-- The command makes a step: it asks whether the stream is still read, looks at the cell, prints
what is new, and leaves or rests. -/
def command (w : Watch) : Watch :=
  match w.place with
  | .resting => { w with place := .asked (!w.finished) }
  | .asked reading => { w with place := .sampled reading w.cell.get }
  | .sampled reading point =>
      let look := w.sampler.look none reading point
      { w with
        sampler := look.sampler
        place := .shown look.progress
        printed := w.printed ++ look.print.toList }
  | .shown .ongoing => { w with place := .resting }
  | .shown _ => { w with place := .left }
  | .left => w

/-- What a turn makes of both. -/
def step (w : Watch) : Turn → Watch
  | .store => w.store
  | .finish => w.finish
  | .command => w.command

/-- What turns make of both. -/
def run (points : List DataPoint) (turns : List Turn) : Watch :=
  turns.foldl step (start points)

/-- The data points that were printed, in order. -/
def shown (w : Watch) : List DataPoint :=
  w.printed.map Prod.snd

/-- The last data point was printed last, or there is none and nothing was printed. -/
def Final (points : List DataPoint) (w : Watch) : Prop :=
  w.pending = [] ∧ w.shown.getLast? = points.getLast?

/-- What the command knows at its place in the round. -/
def Knows (points : List DataPoint) (w : Watch) : Prop :=
  match w.place with
  | .resting => True
  | .asked reading => reading = false → w.pending = []
  | .sampled reading point =>
      (∃ seen, seen <+: w.stored ∧ w.shown.Sublist seen ∧ point = seen.getLastD .empty) ∧
        (reading = false → w.pending = [] ∧ point = points.getLastD .empty)
  | .shown progress => progress = .ended ∧ Final points w ∨ progress = .ongoing
  | .left => Final points w

/-- What holds of a command and its reader after any turns. -/
structure Sound (points : List DataPoint) (w : Watch) : Prop where
  /-- The reader stores its data points in order. -/
  order : w.stored ++ w.pending = points
  cell : w.cell.get = w.stored.getLastD .empty
  finished : w.finished = true → w.pending = []
  numbers : w.printed.map Prod.fst = List.range' 1 w.sampler.printed
  last : w.sampler.last = w.shown.getLast?
  /-- No data point is printed twice in a row. -/
  distinct : w.shown.IsChain (· ≠ ·)
  sublist : w.shown.Sublist w.stored
  knows : Knows points w

/-! ## Turns of the reader -/

variable {points : List DataPoint} {w : Watch}

/-- Before their first steps a command and its reader are sound. -/
theorem sound_start (points : List DataPoint) : Sound points (start points) where
  order := rfl
  cell := rfl
  finished := fun h => absurd h Bool.false_ne_true
  numbers := rfl
  last := rfl
  distinct := .nil
  sublist := .slnil
  knows := trivial

/-- Storing a data point changes nothing that the command knows: if it knows that the stream has
ended, there is none to store. -/
theorem sound_store (h : Sound points w) : Sound points w.store := by
  rw [store]
  split
  · exact h
  · next point rest hpending =>
      have hmore : ¬ w.pending = [] := by simp [hpending]
      refine ⟨?_, ?_, fun hfinished => absurd (h.finished hfinished) hmore, h.numbers, h.last,
        h.distinct, h.sublist.trans (List.sublist_append_left _ _), ?_⟩
      · show w.stored ++ [point] ++ rest = points
        rw [List.append_assoc, List.singleton_append, ← hpending]
        exact h.order
      · show point = (w.stored ++ [point]).getLastD .empty
        rw [List.getLastD_concat]
      · have hknows := h.knows
        unfold Knows at hknows ⊢
        cases hplace : w.place with
        | resting => trivial
        | asked reading =>
            simp only [hplace] at hknows
            exact fun hended => absurd (hknows hended) hmore
        | sampled reading sample =>
            simp only [hplace] at hknows
            obtain ⟨⟨seen, hprefix, hseen⟩, hended⟩ := hknows
            exact ⟨⟨seen, hprefix.trans (List.prefix_append _ _), hseen⟩,
              fun hreading => absurd (hended hreading).1 hmore⟩
        | shown progress =>
            simp only [hplace] at hknows
            rcases hknows with ⟨-, hfinal⟩ | hongoing
            · exact absurd hfinal.1 hmore
            · exact .inr hongoing
        | left =>
            simp only [hplace] at hknows
            exact absurd hknows.1 hmore

/-- A reader that finishes keeps both sound. -/
theorem sound_finish (h : Sound points w) : Sound points w.finish := by
  rw [finish]
  split
  · next hpending =>
      exact ⟨h.order, h.cell, fun _ => hpending, h.numbers, h.last, h.distinct, h.sublist, h.knows⟩
  · exact h

/-! ## Steps of the command -/

/-- Whether the command goes on behind a sample, without a limit of prints. -/
def onward (reading : Bool) : Sampler.Progress :=
  if reading then .ongoing else .ended

/-- A sample that is not empty and not the one printed last is printed. -/
theorem look_of_new {s : Sampler} {reading : Bool} {point : DataPoint}
    (hsome : point.isEmpty = false) (hnew : s.last ≠ some point) :
    s.look none reading point =
      ⟨⟨s.printed + 1, some point⟩, some (s.printed + 1, point), onward reading⟩ := by
  rw [Sampler.look, if_pos]
  · rfl
  · rw [hsome, Bool.not_false, Bool.true_and, bne_iff_ne]
    exact hnew

/-- Any other sample is not. -/
theorem look_of_old {s : Sampler} {reading : Bool} {point : DataPoint}
    (h : point.isEmpty = true ∨ s.last = some point) :
    s.look none reading point = ⟨s, none, onward reading⟩ := by
  rw [Sampler.look, if_neg]
  · rfl
  · rcases h with hempty | hlast
    · rw [hempty]
      exact Bool.false_ne_true
    · rw [hlast, bne_self_eq_false, Bool.and_false]
      exact Bool.false_ne_true

/-- A sample is printed or not, and the command goes on either way as long as the stream is read. -/
theorem progress_look (s : Sampler) (reading : Bool) (point : DataPoint) :
    (s.look none reading point).progress = onward reading := by
  by_cases hold : point.isEmpty = true ∨ s.last = some point
  · rw [look_of_old hold]
  · obtain ⟨hsome, hnew⟩ := not_or.1 hold
    rw [look_of_new (Bool.eq_false_iff.2 hsome) hnew]

/-- A list that ends otherwise is found in front of the last element. -/
theorem sublist_of_last_ne {α : Type} {shown earlier : List α} {last : α}
    (h : shown.Sublist (earlier ++ [last])) (hlast : shown.getLast? ≠ some last) :
    shown.Sublist earlier := by
  rcases List.eq_nil_or_concat shown with rfl | ⟨front, x, hconcat⟩
  · exact List.nil_sublist earlier
  · rw [List.concat_eq_append] at hconcat
    subst hconcat
    have hreverse : (x :: front.reverse).Sublist (last :: earlier.reverse) := by
      rw [← List.reverse_concat', ← List.reverse_concat']
      exact h.reverse
    cases hreverse with
    | cons _ hearlier =>
        rw [← List.reverse_sublist, List.reverse_append]
        exact hearlier
    | cons_cons => exact absurd List.getLast?_concat hlast

/-- The command asks whether the stream is read. -/
theorem sound_ask (h : Sound points w) (hplace : w.place = .resting) : Sound points w.command := by
  rw [command, hplace]
  refine ⟨h.order, h.cell, h.finished, h.numbers, h.last, h.distinct, h.sublist, ?_⟩
  show (!w.finished) = false → w.pending = []
  intro hended
  exact h.finished (by simpa using hended)

/-- The command looks at the cell, behind the question whether the stream is read. -/
theorem sound_sample (h : Sound points w) {reading : Bool} (hplace : w.place = .asked reading) :
    Sound points w.command := by
  have hknows := h.knows
  unfold Knows at hknows
  simp only [hplace] at hknows
  rw [command, hplace]
  refine ⟨h.order, h.cell, h.finished, h.numbers, h.last, h.distinct, h.sublist,
    ⟨w.stored, List.prefix_refl _, h.sublist, h.cell⟩, fun hended => ⟨hknows hended, ?_⟩⟩
  -- nothing is left to store, so the cell holds the last data point of all
  rw [h.cell, ← h.order, hknows hended, List.append_nil]

/-- A sample that is not empty is the last data point of those it is taken from. -/
theorem last_of_sample {source : List DataPoint} {point : DataPoint}
    (hpoint : point = source.getLastD .empty) (hsome : point.isEmpty = false) :
    source.getLast? = some point := by
  rw [List.getLastD_eq_getLast?] at hpoint
  cases hlast : source.getLast? with
  | none =>
      rw [hlast] at hpoint
      subst hpoint
      cases hsome
  | some last =>
      rw [hlast] at hpoint
      rw [hpoint, Option.getD_some]

section

variable {reading : Bool} {point : DataPoint} (h : Sound points w)
  (hplace : w.place = .sampled reading point)

include h hplace

/-- What the command knows of a sample. -/
theorem Sound.sampled :
    (∃ seen, seen <+: w.stored ∧ w.shown.Sublist seen ∧ point = seen.getLastD .empty) ∧
      (reading = false → w.pending = [] ∧ point = points.getLastD .empty) := by
  have hknows := h.knows
  unfold Knows at hknows
  simpa only [hplace] using hknows

/-- A sample that is new is printed, which makes it the one printed last. -/
theorem sound_print (hfull : point.isEmpty = false) (hnew : w.shown.getLast? ≠ some point) :
    Sound points w.command := by
  obtain ⟨⟨seen, hprefix, hseen, hpoint⟩, hended⟩ := h.sampled hplace
  rw [command, hplace]
  simp only [look_of_new hfull (h.last.trans_ne hnew), Option.toList_some]
  have hshown : (w.printed ++ [(w.sampler.printed + 1, point)]).map Prod.snd =
      w.shown ++ [point] := List.map_append
  have hordered : (w.shown ++ [point]).Sublist w.stored := by
    obtain ⟨earlier, rfl⟩ : ∃ earlier, seen = earlier ++ [point] :=
      List.getLast?_eq_some_iff.1 (last_of_sample hpoint hfull)
    exact ((sublist_of_last_ne hseen hnew).append_right [point]).trans hprefix.sublist
  refine ⟨h.order, h.cell, h.finished, ?_, ?_, ?_, ?_, ?_⟩
  · show (w.printed ++ [(w.sampler.printed + 1, point)]).map Prod.fst = _
    rw [List.map_append, h.numbers, List.range'_concat, Nat.one_mul, Nat.add_comm 1]
    rfl
  · show some point = ((w.printed ++ _).map Prod.snd).getLast?
    rw [hshown, List.getLast?_concat]
  · show ((w.printed ++ _).map Prod.snd).IsChain (· ≠ ·)
    rw [hshown]
    refine h.distinct.append (.singleton point) fun x hx y hy => ?_
    obtain rfl : point = y := Option.some.inj hy
    rintro rfl
    exact hnew hx
  · show ((w.printed ++ _).map Prod.snd).Sublist w.stored
    rw [hshown]
    exact hordered
  · cases reading with
    | true => exact .inr rfl
    | false =>
        obtain ⟨hpending, hall⟩ := hended rfl
        refine .inl ⟨rfl, hpending, ?_⟩
        show ((w.printed ++ _).map Prod.snd).getLast? = _
        rw [hshown, List.getLast?_concat, last_of_sample hall hfull]

/-- A sample that is empty or was printed last is not printed. Behind the end of the stream it is
the last data point of all. -/
theorem sound_skip (hsome : ∀ p ∈ points, p.isEmpty = false)
    (hold : point.isEmpty = true ∨ w.shown.getLast? = some point) : Sound points w.command := by
  obtain ⟨-, hended⟩ := h.sampled hplace
  rw [command, hplace]
  rw [← h.last] at hold
  simp only [look_of_old hold, Option.toList_none, List.append_nil]
  refine ⟨h.order, h.cell, h.finished, h.numbers, h.last, h.distinct, h.sublist, ?_⟩
  cases reading with
  | true => exact .inr rfl
  | false =>
      obtain ⟨hpending, hall⟩ := hended rfl
      refine .inl ⟨rfl, hpending, ?_⟩
      show w.shown.getLast? = points.getLast?
      rw [List.getLastD_eq_getLast?] at hall
      cases hlast : points.getLast? with
      | none =>
          -- nothing was stored, so nothing was printed
          have hstored : w.stored = [] := by
            have horder := h.order
            rw [List.getLast?_eq_none_iff.1 hlast] at horder
            exact (List.append_eq_nil_iff.1 horder).1
          have hshown := h.sublist
          rw [hstored] at hshown
          rw [List.sublist_nil.1 hshown]
          rfl
      | some last =>
          rw [hlast, Option.getD_some] at hall
          have hfull := hsome last (List.mem_of_getLast? hlast)
          rw [← h.last, ← hall]
          refine hold.resolve_left ?_
          rw [hall, hfull]
          exact Bool.false_ne_true

/-- The command prints a sample or does not. -/
theorem sound_show (hsome : ∀ p ∈ points, p.isEmpty = false) : Sound points w.command := by
  by_cases hold : point.isEmpty = true ∨ w.shown.getLast? = some point
  · exact sound_skip h hplace hsome hold
  · obtain ⟨hfull, hnew⟩ := not_or.1 hold
    exact sound_print h hplace (Bool.eq_false_iff.2 hfull) hnew

end

/-- Behind its print the command rests, or leaves if the stream had ended. -/
theorem sound_leave (h : Sound points w) {progress : Sampler.Progress}
    (hplace : w.place = .shown progress) : Sound points w.command := by
  have hknows := h.knows
  unfold Knows at hknows
  simp only [hplace] at hknows
  rw [command, hplace]
  rcases hknows with ⟨rfl, hfinal⟩ | rfl
  · exact ⟨h.order, h.cell, h.finished, h.numbers, h.last, h.distinct, h.sublist, hfinal⟩
  · exact ⟨h.order, h.cell, h.finished, h.numbers, h.last, h.distinct, h.sublist, trivial⟩

/-- A step of the command keeps both sound, if no data point is empty. -/
theorem sound_command (h : Sound points w) (hsome : ∀ p ∈ points, p.isEmpty = false) :
    Sound points w.command := by
  cases hplace : w.place with
  | resting => exact sound_ask h hplace
  | asked reading => exact sound_sample h hplace
  | sampled reading point => exact sound_show h hplace hsome
  | shown progress => exact sound_leave h hplace
  | left =>
      rw [command, hplace]
      exact h

/-- Whatever turns a command and its reader take, what they are at is sound. -/
theorem sound_run (hsome : ∀ p ∈ points, p.isEmpty = false) (turns : List Turn) :
    Sound points (run points turns) := by
  have hfold : ∀ w, Sound points w → Sound points (turns.foldl step w) := by
    induction turns with
    | nil => exact fun w h => h
    | cons turn rest ih =>
        intro w h
        refine ih (w.step turn) ?_
        cases turn with
        | store => exact sound_store h
        | finish => exact sound_finish h
        | command => exact sound_command h hsome
  exact hfold (start points) (sound_start points)

/-! ## The end of the loop -/

/-- A command that has left has printed the last data point last. -/
theorem Sound.final (h : Sound points w) (hleft : w.place = .left) : Final points w := by
  have hknows := h.knows
  unfold Knows at hknows
  simpa only [hleft] using hknows

/-- How many steps the command still makes once the reader has finished. -/
def stepsLeft : Place → Nat
  | .left => 0
  | .shown .ongoing => 5
  | .shown _ => 1
  | .sampled reading _ => if reading then 6 else 2
  | .asked reading => if reading then 7 else 3
  | .resting => 4

/-- A command makes at most seven more steps once the reader has finished. -/
theorem steps_left_le (place : Place) : stepsLeft place ≤ 7 := by
  unfold stepsLeft
  split <;> (try split) <;> decide

/-- A command makes no more step exactly if it has left. -/
theorem steps_left_eq_zero {place : Place} : stepsLeft place = 0 ↔ place = .left := by
  unfold stepsLeft
  split <;> (try split) <;> simp_all

/-- Behind a reader that has finished every step brings the command nearer to its end. -/
theorem steps_left_command (h : w.finished = true) :
    w.command.finished = true ∧ stepsLeft w.command.place = stepsLeft w.place - 1 := by
  rw [command]
  cases hplace : w.place with
  | resting => simp [stepsLeft, h]
  | asked reading => cases reading <;> simp [stepsLeft, h]
  | sampled reading point =>
      refine ⟨h, ?_⟩
      show stepsLeft (.shown (w.sampler.look none reading point).progress) = _
      rw [progress_look]
      cases reading <;> rfl
  | shown progress => cases progress <;> simp [stepsLeft, h]
  | left => simp [stepsLeft, h, hplace]

/-- Once the reader has finished, a command that makes as many steps as are left has left. -/
theorem left_of_finished (h : w.finished = true) {n : Nat} (hn : stepsLeft w.place ≤ n) :
    (command^[n] w).place = .left := by
  induction n generalizing w with
  | zero =>
      rw [Function.iterate_zero_apply]
      exact steps_left_eq_zero.1 (Nat.le_zero.1 hn)
  | succ n ih =>
      obtain ⟨hfinished, hsteps⟩ := steps_left_command h
      rw [Function.iterate_succ_apply]
      exact ih hfinished (by omega)

end Watch

/-! ## The data points of a reader -/

/-- A message that was read has a line. -/
theorem Sentinel.lines_of_read_message {sentinel : String} {stream rest : List ByteRead}
    {m : SentinelMessage} (h : readMessage sentinel stream = (.ok m, rest)) : m.lines ≠ [] := by
  have hresult : (gather sentinel stream).result = .ok m := congrArg Prod.fst h
  rw [Gathered.result] at hresult
  split at hresult
  · next hclosed =>
      rw [← Except.ok.inj hresult]
      exact gather_lines_of_closed hclosed
  · split at hresult
    · cases hresult
    · next hsome =>
        rw [← Except.ok.inj hresult]
        exact hsome
  · cases hresult

/-- No data point that a reader stores is empty. -/
theorem Telemetry.stored_not_empty (running : Nat → Bool) (turn : Nat) (stream : List ByteRead) :
    ∀ p ∈ (readFrom running turn stream).stored, p.isEmpty = false := by
  fun_induction readFrom running turn stream with
  | case1 turn stream hrun m rest hread later ih =>
      intro p hp
      rcases List.mem_cons.1 hp with rfl | hp
      · exact List.isEmpty_eq_false_iff.2 (Sentinel.lines_of_read_message hread)
      · exact ih p hp
  | _ => exact fun p hp => absurd hp List.not_mem_nil

namespace Watch

/-- The command prints data points that its reader stored, in the order in which they were stored,
no one twice in a row, with the numbers from one on. Once it has left its loop, everything was
stored, and it has printed the last data point last, or nothing if there was none. It leaves within
seven steps behind the end of the reader. -/
theorem run_prints_last (running : Nat → Bool) (stream : List ByteRead) (turns : List Turn) :
    let points := (Telemetry.readFrom running 0 stream).stored
    let w := run points turns
    w.stored <+: points ∧ w.shown.Sublist w.stored ∧ w.shown.IsChain (· ≠ ·) ∧
      w.printed.map Prod.fst = List.range' 1 w.printed.length ∧
      (w.place = .left → w.stored = points ∧ w.shown.getLast? = points.getLast? ∧
        (w.printed = [] ↔ points = [])) ∧
      (w.finished = true → ∀ n, 7 ≤ n → (command^[n] w).place = .left) := by
  intro points w
  have h : Sound points w := sound_run (Telemetry.stored_not_empty running 0 stream) turns
  have hcount : w.sampler.printed = w.printed.length := by
    have hlengths := congrArg List.length h.numbers
    rw [List.length_map, List.length_range'] at hlengths
    exact hlengths.symm
  refine ⟨⟨w.pending, h.order⟩, h.sublist, h.distinct, hcount ▸ h.numbers, fun hleft => ?_,
    fun hfinished n hn => left_of_finished hfinished ((steps_left_le w.place).trans hn)⟩
  obtain ⟨hpending, hlast⟩ := h.final hleft
  refine ⟨?_, hlast, ?_⟩
  · rw [← h.order, hpending, List.append_nil]
  · have hshown : w.shown = [] ↔ points = [] := by
      rw [← List.getLast?_eq_none_iff, hlast, List.getLast?_eq_none_iff]
    rw [← hshown, shown, List.map_eq_nil_iff]

end Watch

end EngineLink
