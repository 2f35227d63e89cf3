import EngineLink.Proofs.Blackboard.Contents

/-!
# Names and instances

Every creation of a segment makes an instance of its own, which its name leads to until it is
unlinked. Opening a board attaches to the instance its name leads to and changes nothing, or makes
a new one beside all that there are. Read `bare` and `Opens` first; `Named.open_board`
is the result.
-/

namespace EngineLink.Blackboard

/-! ## Names -/

/-- Characters without the slash in front, if they have one. -/
def unslashed : List Char → List Char
  | '/' :: rest => rest
  | chars => chars

/-- A name without the slash in front, if it has one. -/
def bare (name : String) : List Char :=
  unslashed name.toList

/-- A name has one slash in front, whether it was written with one or not. -/
theorem slashed_eq (chars : List Char) : slashed chars = '/' :: unslashed chars := by
  fun_cases unslashed chars with
  | case1 rest => rfl
  | case2 chars hother => exact slashed.eq_2 chars hother

/-- The full form of a name is the name behind one slash. -/
theorem full_of_normalize {name full : String} (h : normalize name = .ok full) :
    full = String.ofList (slashed name.toList) := by
  rw [normalize] at h
  split at h
  · cases h
  · split at h
    · cases h
    · split at h
      · cases h
      · exact (Except.ok.inj h).symm

/-- The system has a name with its slash. -/
theorem full_of_system_name {name full : String} (h : systemName name = .ok full) :
    full = String.ofList ('/' :: bare name) := by
  rw [systemName] at h
  split at h
  · cases h
  · next found hnormalize =>
      split at h
      · cases h
      · rw [← Except.ok.inj h, full_of_normalize hnormalize, slashed_eq, bare]

/-- Two names are one to the system if they differ by no more than a slash in front. -/
theorem full_eq_iff {a b full full' : String} (ha : systemName a = .ok full)
    (hb : systemName b = .ok full') : full = full' ↔ bare a = bare b := by
  rw [full_of_system_name ha, full_of_system_name hb]
  constructor
  · intro heq
    exact (List.cons.inj (String.ofList_injective heq)).2
  · intro heq
    rw [heq]

/-- A name that is taken away leads nowhere; all others lead where they led. -/
theorem lookup_filter_ne (names : List (String × Nat)) (gone name : String) :
    (names.filter fun entry => entry.1 != gone).lookup name =
      if name = gone then none else names.lookup name := by
  induction names with
  | nil => rw [List.filter_nil, List.lookup_nil, ite_self]
  | cons entry rest ih =>
      obtain ⟨other, n⟩ := entry
      by_cases hgone : other = gone
      · subst hgone
        rw [List.filter_cons_of_neg (by simp), ih]
        split
        · rfl
        · next hne => rw [List.lookup_cons, beq_false_of_ne hne]
      · rw [List.filter_cons_of_pos (by simpa using hgone), List.lookup_cons, List.lookup_cons]
        by_cases hname : name = other
        · have hself : (name == other) = true := beq_iff_eq.2 hname
          rw [hself, if_neg fun heq => hgone (hname ▸ heq)]
        · rw [beq_false_of_ne hname, ih]

/-- A name that led nowhere leads to what it is given; all others lead where they led. -/
theorem lookup_concat {names : List (String × Nat)} {full : String}
    (hlead : names.lookup full = none) (n : Nat) (name : String) :
    (names ++ [(full, n)]).lookup name = if name = full then some n else names.lookup name := by
  rw [List.lookup_append, List.lookup_cons, List.lookup_nil]
  by_cases hname : name = full
  · rw [if_pos hname, hname, hlead, beq_self_eq_true, Option.none_or]
  · rw [if_neg hname, beq_false_of_ne hname, Option.or_none]

/-! ## Segments of boards -/

/-- Every segment is a board, and no two names lead to one instance. -/
structure Named (ms : Memories) : Prop where
  boards : ∀ m ∈ ms.segments, IsBoard m
  bound : ∀ {full n}, ms.names.lookup full = some n → n < ms.segments.length
  distinct : ∀ {full full' n}, ms.names.lookup full = some n → ms.names.lookup full' = some n →
    full = full'

/-- Where no segment was created, no name leads anywhere. -/
theorem named_empty : Named .empty where
  boards := fun _ hm => absurd hm List.not_mem_nil
  bound := nofun
  distinct := nofun

section

variable {ms : Memories} {n : Nat}

/-- A segment that was created is the one at its place. -/
theorem segment_of_lt (h : n < ms.segments.length) : ms.segment n = ms.segments[n] := by
  rw [Memories.segment, List.getElem?_eq_getElem h, Option.getD_some]

/-- Every segment that was created is a blackboard. -/
theorem Named.board (hnamed : Named ms) (h : n < ms.segments.length) : IsBoard (ms.segment n) := by
  rw [segment_of_lt h]
  exact hnamed.boards _ (List.getElem_mem h)

/-- A new segment stands behind all others, which stay. -/
theorem segment_append_of_lt (m : Memory) (names : List (String × Nat))
    (h : n < ms.segments.length) :
    (⟨names, ms.segments ++ [m]⟩ : Memories).segment n = ms.segment n := by
  rw [Memories.segment, Memories.segment, List.getElem?_append_left h]

/-- The segment behind all others is the last one. -/
theorem segment_append_length (ms : Memories) (m : Memory) (names : List (String × Nat)) :
    (⟨names, ms.segments ++ [m]⟩ : Memories).segment ms.segments.length = m := by
  rw [Memories.segment, List.getElem?_concat_length, Option.getD_some]

/-- A new content of the segment behind all others replaces the last one. -/
theorem update_append_length (ms : Memories) (m m' : Memory) (names : List (String × Nat)) :
    (⟨names, ms.segments ++ [m]⟩ : Memories).update ms.segments.length m' =
      ⟨names, ms.segments ++ [m']⟩ := by
  rw [Memories.update, List.set_append_right _ _ (Nat.le_refl _), Nat.sub_self, List.set_cons_zero]

/-- A new content of one segment leaves the others. -/
theorem segment_update (m : Memory) (k : Nat) (h : n < ms.segments.length) :
    (ms.update n m).segment k = if n = k then m else ms.segment k := by
  rw [Memories.segment, Memories.update, List.getElem?_set, if_pos h]
  split
  · rfl
  · rfl

/-- Writing a state into a segment takes no name away and no segment. -/
theorem Named.update (hnamed : Named ms) (h : n < ms.segments.length) (s : State) :
    Named (ms.update n (writeState (ms.segment n) s)) where
  boards := by
    intro m hm
    rcases List.mem_or_eq_of_mem_set hm with hold | rfl
    · exact hnamed.boards m hold
    · exact (hnamed.board h).write s
  bound := fun hlead => Nat.lt_of_lt_of_eq (hnamed.bound hlead) List.length_set.symm
  distinct := hnamed.distinct

end

/-! ## Opening a board -/

/-- What opening a name can do, and the segments behind it. -/
inductive Opens (ms : Memories) (descriptors : Bool) (name : String) :
    Except MemoryError Handle → Memories → Prop
  /-- The system does not take the name, or has no descriptor left. -/
  | fails (e : MemoryError) (hrefused : ∀ full, systemName name = .ok full →
      Memories.reserved full = true ∨ descriptors = false) :
      Opens ms descriptors name (.error e) ms
  /-- The name leads to an instance. -/
  | attaches {full : String} {n : Nat} (hname : systemName name = .ok full)
      (hlead : ms.names.lookup full = some n) :
      Opens ms descriptors name (.ok ⟨n, full, boardSize, false⟩) ms
  /-- The name leads nowhere, so a new instance is made. -/
  | creates {full : String} (hname : systemName name = .ok full)
      (hlead : ms.names.lookup full = none) :
      Opens ms descriptors name (.ok ⟨ms.segments.length, full, boardSize, true⟩)
        ⟨ms.names ++ [(full, ms.segments.length)], ms.segments ++ [fresh]⟩

section

variable {ms : Memories} {name full : String} {size : Nat}

/-- A system that does its work gives a name a segment, whether it had one or not. -/
theorem open_segment_of_works {a : Memories.Answers} (hcreate : a.create full = none)
    (hattach : a.attach full = none) : ms.openSegment a full = .ok (ms.attach full) := by
  rw [Memories.openSegment, Memories.createFailure?, Memories.attachFailure?, hcreate, hattach]
  cases hlead : ms.names.lookup full with
  | none => rfl
  | some n => rfl

/-- The usual system creates a segment of any name that it does not keep for itself. -/
theorem usual_create (hfree : ¬ Memories.reserved full = true) :
    (Memories.Answers.usual true).create full = none :=
  (if_neg hfree).trans (if_pos rfl)

variable (hname : systemName name = .ok full)

include hname

/-- A name under which the system creates no segment, for another reason than that there is one, is
not opened. -/
theorem open_sized_of_refused {descriptors : Bool} {e : SystemError}
    (hcreate : (Memories.Answers.usual descriptors).create full = some e)
    (hkind : e.kind ≠ .alreadyExists) :
    ms.openSized descriptors name size = ⟨.error (.segmentOpen e), ms⟩ := by
  have hopen : ms.openSegment (.usual descriptors) full = .error e := by
    rw [Memories.openSegment, Memories.createFailure?, hcreate]
    exact if_neg hkind
  rw [Memories.openSized, Memories.openWith, hname]
  dsimp only
  rw [hopen]

variable (hfree : ¬ Memories.reserved full = true)

include hfree

/-- With a descriptor left, a name that the system takes is attached to, sized and mapped. -/
theorem open_sized_of_free :
    ms.openSized true name size = (ms.attach full).2.2.mapSegment (.usual true) (ms.attach full).1
      (ms.attach full).2.1 full size := by
  rw [Memories.openSized, Memories.openWith, hname]
  dsimp only
  rw [open_segment_of_works (usual_create hfree) rfl]

variable (hpositive : size ≠ 0)

include hpositive

/-- A segment of the right size is attached to as it is. -/
theorem open_sized_of_lead {n : Nat} (hlead : ms.names.lookup full = some n)
    (hsize : (ms.segment n).size = size) :
    ms.openSized true name size = ⟨.ok ⟨n, full, size, false⟩, ms⟩ := by
  rw [open_sized_of_free hname hfree]
  simp only [Memories.attach, hlead, Memories.mapSegment, Memories.giveSize,
    Memories.Answers.usual]
  rw [if_pos hsize, if_neg hpositive]

/-- A name without a segment gets one of zeros. -/
theorem open_sized_of_no_lead (hroom : ¬ Memories.maxSize < size)
    (hlead : ms.names.lookup full = none) :
    ms.openSized true name size =
      ⟨.ok ⟨ms.segments.length, full, size, true⟩, ms.names ++ [(full, ms.segments.length)],
        ms.segments ++ [(Memory.zero 0).resize size]⟩ := by
  have hempty : (Memory.zero 0).size ≠ size := hpositive.symm
  rw [open_sized_of_free hname hfree]
  simp only [Memories.attach, hlead, Memories.mapSegment, Memories.giveSize,
    Memories.Answers.usual, segment_append_length, update_append_length]
  rw [if_neg hempty, if_neg hroom, if_neg hpositive]

end

/-- What opening a name does is one of three things: it fails, it attaches to the instance that the
name leads to, or it makes a new one. -/
theorem Named.open_board {ms : Memories} (hnamed : Named ms) (descriptors : Bool) (name : String) :
    Opens ms descriptors name (openBoard ms descriptors name).result
      (openBoard ms descriptors name).after := by
  have hpositive : boardSize ≠ 0 := by decide
  rw [openBoard, openBoardWith, ← Memories.openSized]
  cases hname : systemName name with
  | error e =>
      rw [Memories.openSized, Memories.openWith, hname]
      exact .fails e fun full hfull => absurd (hname.symm.trans hfull) nofun
  | ok full =>
      by_cases hreserved : Memories.reserved full = true
      · have hcreate : (Memories.Answers.usual descriptors).create full = some (.code 22) :=
          if_pos hreserved
        rw [open_sized_of_refused hname hcreate (by decide)]
        refine .fails _ fun full' hfull => .inl ?_
        rw [← Except.ok.inj (hname.symm.trans hfull), hreserved]
      · cases descriptors with
        | false =>
            have hcreate : (Memories.Answers.usual false).create full = some (.code 24) :=
              (if_neg hreserved).trans (if_neg Bool.false_ne_true)
            rw [open_sized_of_refused hname hcreate (by decide)]
            exact .fails _ fun _ _ => .inr rfl
        | true =>
            cases hlead : ms.names.lookup full with
            | some n =>
                have hsize := (hnamed.board (hnamed.bound hlead)).size
                rw [open_sized_of_lead hname hreserved hpositive hlead hsize]
                exact .attaches hname hlead
            | none =>
                rw [open_sized_of_no_lead hname hreserved hpositive (by decide) hlead]
                simp only [if_true, giveLock, segment_append_length, update_append_length]
                exact .creates hname hlead

section

variable {ms after : Memories} {descriptors : Bool} {name : String} {h : Handle}

/-- Opening leaves every name an instance of its own. -/
theorem Opens.named {result : Except MemoryError Handle}
    (hopens : Opens ms descriptors name result after) (hnamed : Named ms) : Named after := by
  cases hopens with
  | fails => exact hnamed
  | attaches => exact hnamed
  | @creates full hname hlead =>
      have hnew {other : String} : ms.names.lookup other ≠ some ms.segments.length :=
        fun hother => Nat.lt_irrefl _ (hnamed.bound hother)
      refine ⟨?_, ?_, ?_⟩
      · intro m hm
        rcases List.mem_append.1 hm with hold | hnew
        · exact hnamed.boards m hold
        · rw [List.mem_singleton.1 hnew]
          exact is_board_fresh
      · intro other n hother
        rw [lookup_concat hlead] at hother
        rw [List.length_append, List.length_singleton]
        split at hother
        · rw [← Option.some.inj hother]
          exact Nat.lt_succ_self _
        · exact Nat.lt_succ_of_lt (hnamed.bound hother)
      · intro first second n hfirst hsecond
        rw [lookup_concat hlead] at hfirst hsecond
        split at hfirst <;> split at hsecond
        · next hfull hfull' => rw [hfull, hfull']
        · rw [← hfirst] at hsecond
          exact absurd hsecond hnew
        · rw [← hsecond] at hfirst
          exact absurd hfirst hnew
        · exact hnamed.distinct hfirst hsecond

/-- Opening a board changes no segment; a new one stands behind all others. -/
theorem Opens.segments (hopens : Opens ms descriptors name (.ok h) after) :
    after.segments = ms.segments ++ if h.created then [fresh] else [] := by
  cases hopens with
  | attaches => exact (List.append_nil _).symm
  | creates => rfl

/-- Behind its opening a name leads to the instance that was opened. -/
theorem Opens.lead (hopens : Opens ms descriptors name (.ok h) after) :
    ∃ full, systemName name = .ok full ∧ after.names.lookup full = some h.segment := by
  cases hopens with
  | attaches hname hlead => exact ⟨_, hname, hlead⟩
  | creates hname hlead => exact ⟨_, hname, by rw [lookup_concat hlead, if_pos rfl]⟩

/-- A name that leads to an instance goes on leading to it when another one is opened. -/
theorem Opens.lead_of_lead (hopens : Opens ms descriptors name (.ok h) after) {full : String}
    {n : Nat} (hlead : ms.names.lookup full = some n) : after.names.lookup full = some n := by
  cases hopens with
  | attaches => exact hlead
  | @creates other _ hnone =>
      rw [lookup_concat hnone, if_neg, hlead]
      rintro rfl
      rw [hnone] at hlead
      cases hlead

end

/-- A name that the system takes is opened as long as there is a descriptor left. -/
theorem Named.open_board_ok {ms : Memories} (hnamed : Named ms) {name full : String}
    (hname : systemName name = .ok full) (hfree : Memories.reserved full = false) :
    ∃ h, (openBoard ms true name).result = .ok h := by
  have hopens := hnamed.open_board true name
  generalize (openBoard ms true name).result = result at hopens ⊢
  generalize (openBoard ms true name).after = after at hopens
  cases hopens with
  | fails e hrefused =>
      rcases hrefused full hname with hreserved | hnone
      · rw [hfree] at hreserved
        cases hreserved
      · cases hnone
  | attaches => exact ⟨_, rfl⟩
  | creates => exact ⟨_, rfl⟩

/-- Two names that are opened reach one instance exactly if they differ by no more than a slash in
front. -/
theorem Named.same_instance_iff {ms : Memories} (hnamed : Named ms) {a b : String} {da db : Bool}
    {h k : Handle} (ha : (openBoard ms da a).result = .ok h)
    (hb : (openBoard (openBoard ms da a).after db b).result = .ok k) :
    h.segment = k.segment ↔ bare a = bare b := by
  have hopens := hnamed.open_board da a
  rw [ha] at hopens
  have hopens' := (hopens.named hnamed).open_board db b
  rw [hb] at hopens'
  obtain ⟨full, hname, hlead⟩ := hopens.lead
  obtain ⟨full', hname', hlead'⟩ := hopens'.lead
  have hkept := hopens'.lead_of_lead hlead
  rw [← full_eq_iff hname hname']
  constructor
  · intro hsame
    rw [hsame] at hkept
    exact (hopens'.named (hopens.named hnamed)).distinct hkept hlead'
  · rintro rfl
    exact Option.some.inj (hkept.symm.trans hlead')

/-! ## Unlinking a name -/

/-- A name that the system takes can be unlinked, whether it leads to an instance or not. -/
theorem unlink_ok (ms : Memories) {name full : String} (hname : systemName name = .ok full)
    (hfree : Memories.reserved full = false) : ∃ after, ms.unlink name = .ok after := by
  rw [Memories.unlink, hname]
  simp only [hfree]
  exact ⟨_, rfl⟩

/-- Unlinking takes one name away and no segment. -/
theorem names_of_unlink {ms after : Memories} {name : String} (h : ms.unlink name = .ok after) :
    ∃ full, systemName name = .ok full ∧
      after = { ms with names := ms.names.filter fun entry => entry.1 != full } := by
  rw [Memories.unlink] at h
  split at h
  · cases h
  · next full hname =>
      split at h
      · cases h
      · exact ⟨full, hname, (Except.ok.inj h).symm⟩

/-- Unlinking leaves every name an instance of its own. -/
theorem Named.unlink {ms : Memories} (hnamed : Named ms) (full : String) :
    Named { ms with names := ms.names.filter fun entry => entry.1 != full } where
  boards := hnamed.boards
  bound := by
    intro name n hlead
    rw [lookup_filter_ne] at hlead
    split at hlead
    · cases hlead
    · exact hnamed.bound hlead
  distinct := by
    intro first second n hfirst hsecond
    rw [lookup_filter_ne] at hfirst hsecond
    split at hfirst
    · cases hfirst
    · split at hsecond
      · cases hsecond
      · exact hnamed.distinct hfirst hsecond

/-! ## Reading and writing a board -/

section

variable {ms : Memories} {h : Handle} (hnamed : Named ms) (hbound : h.segment < ms.segments.length)

include hnamed hbound

/-- The state of a board can always be copied. -/
theorem Named.snapshot : snapshot ms h = .ok (readState (ms.segment h.segment)) := by
  rw [Blackboard.snapshot, if_pos (hnamed.board hbound).lock]

/-- The state of a board can always be changed. -/
theorem Named.update_board (f : State → State) :
    Blackboard.update ms h f = .ok (ms.update h.segment
      (writeState (ms.segment h.segment) (f (readState (ms.segment h.segment))))) := by
  rw [Blackboard.update, if_pos (hnamed.board hbound).lock]

end

end EngineLink.Blackboard
