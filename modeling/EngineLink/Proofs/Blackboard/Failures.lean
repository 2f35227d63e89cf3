import EngineLink.Proofs.Blackboard.Instances

/-!
# Openings that fail

An opening calls the system several times and takes nothing back: what was created or resized
before the call that failed stays, and nothing else is touched. Read `LeftBehind` first;
`open_failure_leaves` is the result.
-/

namespace EngineLink.Blackboard

/-- The segments with a new one behind them, which a name leads to. -/
def Memories.extended (ms : Memories) (full : String) (m : Memory) : Memories :=
  ⟨ms.names ++ [(full, ms.segments.length)], ms.segments ++ [m]⟩

/-- What an opening that failed leaves behind, by the call that failed. -/
inductive LeftBehind (ms : Memories) (a : Memories.Answers) (name : String) (size : Nat) :
    MemoryError → Memories → Prop
  /-- No call was made: the name is none of a segment. -/
  | unnamed {e : MemoryError} (hname : systemName name = .error e) :
      LeftBehind ms a name size e ms
  /-- No segment was created and none attached to. -/
  | unopened {full : String} {e : SystemError} (hname : systemName name = .ok full)
      (hopen : ms.openSegment a full = .error e) :
      LeftBehind ms a name size (.segmentOpen e) ms
  /-- The segment of the name could not be sized. -/
  | unsized {full : String} {n : Nat} {e : MemoryError} (hname : systemName name = .ok full)
      (hlead : ms.names.lookup full = some n) (hsize : ms.giveSize a n size = .error e) :
      LeftBehind ms a name size e ms
  /-- The segment of the name had its size already and could not be mapped. -/
  | unmapped {full : String} {n : Nat} {e : SystemError} (hname : systemName name = .ok full)
      (hlead : ms.names.lookup full = some n) (hsame : (ms.segment n).size = size)
      (hmap : a.map size = some e) :
      LeftBehind ms a name size (.mmap e) ms
  /-- The segment of the name was cut or filled up and could not be mapped. -/
  | resized {full : String} {n : Nat} {e : SystemError} (hname : systemName name = .ok full)
      (hlead : ms.names.lookup full = some n) (hother : (ms.segment n).size ≠ size)
      (hmap : a.map size = some e) :
      LeftBehind ms a name size (.mmap e) (ms.update n ((ms.segment n).resize size))
  /-- A segment was created and could not be sized: it stays, without a byte. -/
  | createdEmpty {full : String} {e : MemoryError} (hname : systemName name = .ok full)
      (hlead : ms.names.lookup full = none)
      (hsize : (ms.extended full (.zero 0)).giveSize a ms.segments.length size = .error e) :
      LeftBehind ms a name size e (ms.extended full (.zero 0))
  /-- A segment was created and could not be mapped: it stays, with zero bytes. -/
  | createdSized {full : String} {e : SystemError} (hname : systemName name = .ok full)
      (hlead : ms.names.lookup full = none) (hmap : a.map size = some e) :
      LeftBehind ms a name size (.mmap e) (ms.extended full (.zero size))

/-! ## The calls of an opening -/

section

variable {ms : Memories} {a : Memories.Answers} {name full : String} {n size : Nat}

/-- A segment is opened by attaching to the one of the name, or to a new one. -/
theorem attach_of_open_segment {opened : Nat × Bool × Memories}
    (h : ms.openSegment a full = .ok opened) : opened = ms.attach full := by
  rw [Memories.openSegment] at h
  split at h
  · exact (Except.ok.inj h).symm
  · split at h
    · split at h
      · exact (Except.ok.inj h).symm
      · cases h
    · cases h

/-- A name that leads to a segment is attached to it. -/
theorem attach_of_lead (hlead : ms.names.lookup full = some n) :
    ms.attach full = (n, false, ms) := by
  rw [Memories.attach, hlead]

/-- A name that leads nowhere gets a new segment behind all others. -/
theorem attach_of_no_lead (hlead : ms.names.lookup full = none) :
    ms.attach full = (ms.segments.length, true, ms.extended full (.zero 0)) := by
  rw [Memories.attach, hlead]
  rfl

/-- A segment that has its size is left alone; any other one gets it. -/
theorem sized_of_give_size {sized : Memories} (h : ms.giveSize a n size = .ok sized) :
    sized = if (ms.segment n).size = size then ms
      else ms.update n ((ms.segment n).resize size) := by
  rw [Memories.giveSize] at h
  split at h
  · cases h
  · split at h
    · next hsame => rw [if_pos hsame, Except.ok.inj h]
    · next hother =>
        split at h
        · cases h
        · rw [if_neg hother, Except.ok.inj h]

/-- A segment is not sized only if the system does not tell its size or does not give it one. -/
theorem give_size_ne_error {e : MemoryError} (hmeasure : a.measure = none)
    (hresize : a.resize size = none) : ms.giveSize a n size ≠ .error e := by
  intro h
  rw [Memories.giveSize, hmeasure, hresize] at h
  dsimp only at h
  split at h
  · cases h
  · cases h

/-- A new segment is one of zero bytes, whatever size it gets. -/
theorem sized_extended (ms : Memories) (full : String) (size : Nat) :
    (if ((ms.extended full (.zero 0)).segment ms.segments.length).size = size then
        ms.extended full (.zero 0)
      else (ms.extended full (.zero 0)).update ms.segments.length
        (((ms.extended full (.zero 0)).segment ms.segments.length).resize size)) =
      ms.extended full (.zero size) := by
  have hnew : (ms.extended full (.zero 0)).segment ms.segments.length = .zero 0 :=
    segment_append_length ..
  rw [hnew]
  split
  · next hempty => rw [← hempty, Memory.zero, Memory.zero]
  · rw [Memories.extended, update_append_length, Memory.resize, Memory.zero, List.take_nil]
    rfl

/-- A segment that is open and not mapped was not sized, or it was and is not mapped for that. -/
theorem map_segment_cases {created : Bool} {e : MemoryError}
    (h : (ms.mapSegment a n created full size).result = .error e) :
    (ms.giveSize a n size = .error e ∧ (ms.mapSegment a n created full size).after = ms) ∨
    ∃ e', a.map size = some e' ∧ e = .mmap e' ∧
      (ms.mapSegment a n created full size).after =
        if (ms.segment n).size = size then ms else ms.update n ((ms.segment n).resize size) := by
  revert h
  rw [Memories.mapSegment]
  cases hsize : ms.giveSize a n size with
  | error e' =>
      intro h
      exact .inl ⟨congrArg Except.error (Except.error.inj h), rfl⟩
  | ok sized =>
      cases hmap : a.map size with
      | none =>
          intro h
          cases h
      | some e' =>
          intro h
          exact .inr ⟨e', rfl, (Except.error.inj h).symm, sized_of_give_size hsize⟩

/-- What an opening that failed leaves behind is told by the call that failed. -/
theorem left_behind_of_failure {e : MemoryError}
    (h : (ms.openWith a name size).result = .error e) :
    LeftBehind ms a name size e (ms.openWith a name size).after := by
  revert h
  rw [Memories.openWith]
  cases hname : systemName name with
  | error e' =>
      intro h
      rw [← Except.error.inj h]
      exact .unnamed hname
  | ok full =>
      dsimp only
      cases hopen : ms.openSegment a full with
      | error e' =>
          intro h
          rw [← Except.error.inj h]
          exact .unopened hname hopen
      | ok opened =>
          dsimp only
          rw [attach_of_open_segment hopen]
          intro h
          cases hlead : ms.names.lookup full with
          | some n =>
              rw [attach_of_lead hlead] at h ⊢
              rcases map_segment_cases h with ⟨hsize, hafter⟩ | ⟨e', hmap, rfl, hafter⟩
              · rw [hafter]
                exact .unsized hname hlead hsize
              · rw [hafter]
                split
                · next hsame => exact .unmapped hname hlead hsame hmap
                · next hother => exact .resized hname hlead hother hmap
          | none =>
              rw [attach_of_no_lead hlead] at h ⊢
              rcases map_segment_cases h with ⟨hsize, hafter⟩ | ⟨e', hmap, rfl, hafter⟩
              · rw [hafter]
                exact .createdEmpty hname hlead hsize
              · rw [hafter, sized_extended]
                exact .createdSized hname hlead hmap

/-! ## What stays as it was -/

/-- Another content of one segment is none of another one, whether there is such a segment or
not. -/
theorem segment_update_of_ne (ms : Memories) (m : Memory) {k : Nat} (hne : n ≠ k) :
    (ms.update n m).segment k = ms.segment k := by
  rw [Memories.segment, Memories.update, List.getElem?_set_ne hne, Memories.segment]

variable {e : MemoryError} {after : Memories} (h : LeftBehind ms a name size e after)

include h

/-- A failed opening takes no name away and gives none away but its own. -/
theorem LeftBehind.lookup {other : String} (hother : other ≠ String.ofList ('/' :: bare name)) :
    after.names.lookup other = ms.names.lookup other := by
  cases h with
  | unnamed | unopened | unsized | unmapped | resized => rfl
  | createdEmpty hname hlead | createdSized hname hlead =>
      rw [Memories.extended, lookup_concat hlead, full_of_system_name hname, if_neg hother]

/-- A failed opening changes no segment but the one its name leads to. -/
theorem LeftBehind.segment {k : Nat} (hbound : k < ms.segments.length)
    (hother : ms.names.lookup (String.ofList ('/' :: bare name)) ≠ some k) :
    after.segment k = ms.segment k := by
  cases h with
  | unnamed | unopened | unsized | unmapped => rfl
  | resized hname hlead =>
      rw [full_of_system_name hname] at hlead
      refine segment_update_of_ne ms _ fun heq => hother ?_
      rw [hlead, heq]
  | createdEmpty | createdSized => exact segment_append_of_lt _ _ hbound

/-- Where the system sizes and maps whatever it opens, a failed opening leaves all as it was. -/
theorem LeftBehind.unchanged (hmeasure : a.measure = none) (hresize : a.resize size = none)
    (hmap : a.map size = none) : after = ms := by
  cases h with
  | unnamed | unopened | unsized | unmapped => rfl
  | createdEmpty _ _ hsize => exact absurd hsize (give_size_ne_error hmeasure hresize)
  | resized _ _ _ hfails | createdSized _ _ hfails =>
      rw [hmap] at hfails
      cases hfails

end

/-- An opening that fails leaves behind what it had done when a call failed: a segment it had
created or resized stays so. No other name and no other segment is touched, and nothing at all if
the system sizes and maps what it opens. -/
theorem open_failure_leaves (ms : Memories) (a : Memories.Answers) (name : String) (size : Nat)
    {e : MemoryError} (hfailed : (ms.openWith a name size).result = .error e) :
    LeftBehind ms a name size e (ms.openWith a name size).after ∧
    (∀ other, other ≠ String.ofList ('/' :: bare name) →
      (ms.openWith a name size).after.names.lookup other = ms.names.lookup other) ∧
    (∀ k < ms.segments.length, ms.names.lookup (String.ofList ('/' :: bare name)) ≠ some k →
      (ms.openWith a name size).after.segment k = ms.segment k) ∧
    (a.measure = none → a.resize size = none → a.map size = none →
      (ms.openWith a name size).after = ms) := by
  have hleft := left_behind_of_failure hfailed
  exact ⟨hleft, fun other hother => hleft.lookup hother,
    fun k hbound hother => hleft.segment hbound hother,
    fun hmeasure hresize hmap => hleft.unchanged hmeasure hresize hmap⟩

/-- Opening a segment of three bytes without a size cuts it before it fails. -/
theorem open_failure_leaves_cut_segment :
    ∃ after, LeftBehind ⟨[("/a", 0)], [⟨3, [1, 2, 3]⟩]⟩ (.usual true) "a" 0 (.mmap (.code 22))
        after ∧ after = ⟨[("/a", 0)], [⟨0, []⟩]⟩ :=
  ⟨_, (open_failure_leaves ⟨[("/a", 0)], [⟨3, [1, 2, 3]⟩]⟩ (.usual true) "a" 0
    rfl).1, by decide⟩

/-- A name without a segment has one behind an opening that failed. -/
theorem failed_opening_creates :
    (Memories.empty.openSized true "a" 0).result = .error (.mmap (.code 22)) ∧
    (Memories.empty.openSized true "a" 0).after = ⟨[("/a", 0)], [.zero 0]⟩ ∧
    (Memories.empty.openSized true "a" 0).after ≠ Memories.empty :=
  ⟨rfl, by decide, by decide⟩

end EngineLink.Blackboard
