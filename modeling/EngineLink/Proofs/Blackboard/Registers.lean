import EngineLink.Proofs.Blackboard.Instances
import Mathlib.Data.List.Basic
import Mathlib.Data.List.Induction

/-!
# Boards as registers

Names, instances and handles are told apart by what was done: a history of openings, changes and
unlinkings tells which instance a name leads to, and which changes an instance has seen. Every
instance is a register that starts at zero. Read `World.step`, `stateOf` and `leads` first;
`run_keeps_registers` is the result.
-/

namespace EngineLink.Blackboard

/-- What is done to boards. A handle is given by its order of opening. -/
inductive Action
  /-- A board is opened by a name, with a descriptor left or not. -/
  | attach (descriptors : Bool) (name : String)
  | publish (handle : Nat) (s : State)
  | update (handle : Nat) (f : State → State)
  | snapshot (handle : Nat)
  | dataPoint (handle : Nat)
  | unlink (name : String)
  | drop (handle : Nat)

/-- What came of an action. An instance is given by its order of creation. -/
inductive Event
  /-- A name was opened, and its instance created or not. -/
  | opened (name : String) (n : Nat) (created : Bool)
  /-- The state of an instance was changed. -/
  | changed (n : Nat) (f : State → State)
  | copied (n : Nat) (s : State)
  | pointed (n : Nat) (values : SensorValues)
  | unlinked (name : String)

/-- The segments, the handles that were opened, each until it is dropped, and what came of the
actions, in order. -/
structure World where
  memories : Memories
  handles : List (Option Handle)
  history : List Event

namespace World

/-- Nothing was done. -/
def start : World :=
  ⟨.empty, [], []⟩

/-- A handle that was not dropped. -/
def handle? (w : World) (i : Nat) : Option Handle :=
  w.handles[i]?.join

/-- One more thing came of an action. -/
def tell (w : World) (event : Event) : World :=
  { w with history := w.history ++ [event] }

/-- What a name opens. -/
def attach (w : World) (descriptors : Bool) (name : String) : World :=
  let opened := openBoard w.memories descriptors name
  match opened.result with
  | .error _ => { w with memories := opened.after }
  | .ok h =>
      ⟨opened.after, w.handles ++ [some h], w.history ++ [.opened name h.segment h.created]⟩

/-- The state of an instance was changed, or it could not be. -/
def change (w : World) (h : Handle) (f : State → State) : Except MemoryError Memories → World
  | .error _ => w
  | .ok ms => { w with memories := ms }.tell (.changed h.segment f)

/-- What an action makes of the world. One through a handle that is not there makes nothing, and
one that fails tells nothing. -/
def step (w : World) : Action → World
  | .attach descriptors name => w.attach descriptors name
  | .publish i s =>
      match w.handle? i with
      | none => w
      | some h => w.change h (fun _ => s) (publish w.memories h s)
  | .update i f =>
      match w.handle? i with
      | none => w
      | some h => w.change h f (update w.memories h f)
  | .snapshot i =>
      match w.handle? i with
      | none => w
      | some h =>
          match snapshot w.memories h with
          | .error _ => w
          | .ok s => w.tell (.copied h.segment s)
  | .dataPoint i =>
      match w.handle? i with
      | none => w
      | some h =>
          match dataPoint w.memories h with
          | .error _ => w
          | .ok values => w.tell (.pointed h.segment values)
  | .unlink name =>
      match w.memories.unlink name with
      | .error _ => w
      | .ok ms => { w with memories := ms }.tell (.unlinked name)
  | .drop i => { w with handles := w.handles.set i none }

/-- What actions make of the world. -/
def run (actions : List Action) : World :=
  actions.foldl step start

end World

/-! ## What a history tells -/

/-- The state of an instance behind an event. -/
def Event.change (n : Nat) (s : State) : Event → State
  | .changed m f => if m = n then f s else s
  | _ => s

/-- Zeros, with the changes of an instance made to them in order. -/
def stateOf (history : List Event) (n : Nat) : State :=
  history.foldl (Event.change n) State.zero

/-- The instance that a name leads to behind an event. -/
def Event.lead (name : String) (lead : Option Nat) : Event → Option Nat
  | .opened other n _ => if bare other = bare name then some n else lead
  | .unlinked other => if bare other = bare name then none else lead
  | _ => lead

/-- The instance that a name leads to: the one of its last opening, unless it was unlinked since. -/
def leads (history : List Event) (name : String) : Option Nat :=
  history.foldl (Event.lead name) none

/-- The instance that an event is about. -/
def Event.instance? : Event → Option Nat
  | .opened _ n _ | .changed n _ | .copied n _ | .pointed n _ => some n
  | .unlinked _ => none

/-- An instance was created. -/
def Event.creates (n : Nat) : Event → Bool
  | .opened _ m created => created && m == n
  | _ => false

/-- The instance that was opened. -/
def Event.opening? : Event → Option Nat
  | .opened _ n _ => some n
  | _ => none

/-- What came of an action follows from what came of those before it. -/
def Event.Follows (before : List Event) : Event → Prop
  | .opened name n created =>
      leads before name = (if created then none else some n) ∧
        (created = true ↔ ∀ other c, .opened other n c ∉ before)
  | .changed n _ => ∃ name, .opened name n true ∈ before
  | .copied n s => s = stateOf before n
  | .pointed n values => values = (stateOf before n).sensorValues
  | .unlinked _ => True

section

variable (history : List Event) (event : Event)

/-- A state told by a history changes with its last event. -/
theorem state_of_concat (n : Nat) :
    stateOf (history ++ [event]) n = event.change n (stateOf history n) :=
  List.foldl_concat ..

/-- Where a name leads changes with the last event of a history. -/
theorem leads_concat (name : String) :
    leads (history ++ [event]) name = event.lead name (leads history name) :=
  List.foldl_concat ..

end

/-- An instance of which nothing is told is at zero. -/
theorem state_of_untold {history : List Event} {n : Nat}
    (h : ∀ event ∈ history, event.instance? ≠ some n) : stateOf history n = State.zero := by
  induction history using List.reverseRecOn with
  | nil => rfl
  | append_singleton earlier event ih =>
      rw [state_of_concat, ih fun other hother => h other (List.mem_append_left _ hother)]
      have hevent := h event (List.mem_append_right _ (List.mem_singleton.2 rfl))
      cases event with
      | changed m f => exact if_neg fun heq => hevent (congrArg some heq)
      | _ => rfl

/-- Only an opening creates an instance. -/
theorem Event.opened_of_creates {event : Event} {n : Nat} (h : event.creates n = true) :
    ∃ name, event = .opened name n true := by
  cases event with
  | opened name m created =>
      rw [creates, Bool.and_eq_true, beq_iff_eq] at h
      obtain ⟨rfl, rfl⟩ := h
      exact ⟨name, rfl⟩
  | _ => cases h

/-- Every event of a longer history follows if the last one does. -/
theorem follows_concat {history : List Event} {event : Event}
    (h : ∀ before e after, history = before ++ e :: after → e.Follows before)
    (hevent : event.Follows history) :
    ∀ before e after, history ++ [event] = before ++ e :: after → e.Follows before := by
  intro before e after heq
  rcases List.eq_nil_or_concat after with rfl | ⟨front, last, rfl⟩
  · obtain ⟨rfl, hlast⟩ := List.append_inj' heq rfl
    rw [← (List.cons.inj hlast).1]
    exact hevent
  · rw [List.concat_eq_append, ← List.cons_append, ← List.append_assoc] at heq
    exact h before e front (List.append_inj' heq rfl).1

/-! ## What holds of every run -/

/-- The instances that were opened, in order. -/
def openings (history : List Event) : List Nat :=
  history.filterMap Event.opening?

/-- An opening is told behind those before it. -/
theorem openings_opened (history : List Event) (name : String) (n : Nat) (created : Bool) :
    openings (history ++ [.opened name n created]) = openings history ++ [n] :=
  List.filterMap_append

namespace World

/-- What holds of the world after any actions. -/
structure Sound (w : World) : Prop where
  named : Named w.memories
  /-- Every instance holds what its changes make of zeros. -/
  states : ∀ n < w.memories.segments.length, readState (w.memories.segment n) = stateOf w.history n
  leads : ∀ {name full}, systemName name = .ok full →
    w.memories.names.lookup full = leads w.history name
  /-- Every opening gave one handle. -/
  opened : (openings w.history).length = w.handles.length
  /-- A handle is attached to the instance of its opening. -/
  attached : ∀ {i h}, w.handle? i = some h → (openings w.history)[i]? = some h.segment
  /-- Nothing is told of instances that are not there. -/
  told : ∀ event ∈ w.history, ∀ n, event.instance? = some n → n < w.memories.segments.length
  created : ∀ n < w.memories.segments.length, w.history.countP (Event.creates n) = 1
  follows : ∀ before event after, w.history = before ++ event :: after → event.Follows before

variable {w : World}

/-- Before anything is done all is sound. -/
theorem sound_start : Sound start where
  named := named_empty
  states := fun _ h => absurd h (Nat.not_lt_zero _)
  leads := fun _ => rfl
  opened := rfl
  attached := nofun
  told := fun _ h => absurd h List.not_mem_nil
  created := fun _ h => absurd h (Nat.not_lt_zero _)
  follows := by
    intro before event after heq
    cases before <;> cases heq

/-- A handle belongs to a segment that was created. -/
theorem Sound.bound (hw : Sound w) {i : Nat} {h : Handle} (hhandle : w.handle? i = some h) :
    h.segment < w.memories.segments.length := by
  obtain ⟨event, hevent, hopening⟩ :=
    List.mem_filterMap.1 (List.mem_of_getElem? (hw.attached hhandle))
  refine hw.told event hevent _ ?_
  cases event with
  | opened => exact hopening
  | _ => cases hopening

/-- Every segment that was created is told of by the opening that created it. -/
theorem Sound.exists_opened (hw : Sound w) {n : Nat} (hn : n < w.memories.segments.length) :
    ∃ name, .opened name n true ∈ w.history := by
  obtain ⟨event, hevent, hcreates⟩ :=
    List.countP_pos_iff.1 (by rw [hw.created n hn]; exact Nat.one_pos)
  obtain ⟨name, rfl⟩ := Event.opened_of_creates hcreates
  exact ⟨name, hevent⟩

/-- Something came of an action that opened nothing, and the memories behind it are what it
tells. -/
theorem Sound.tell (hw : Sound w) {event : Event} {ms : Memories} (hnamed : Named ms)
    (hlength : ms.segments.length = w.memories.segments.length)
    (hstates : ∀ n < w.memories.segments.length,
      readState (ms.segment n) = event.change n (readState (w.memories.segment n)))
    (hleads : ∀ {name full}, systemName name = .ok full →
      ms.names.lookup full = event.lead name (w.memories.names.lookup full))
    (hbound : ∀ n, event.instance? = some n → n < w.memories.segments.length)
    (hplain : event.opening? = none) (hfollows : event.Follows w.history) :
    Sound ({ w with memories := ms }.tell event) := by
  have hopenings : openings (w.history ++ [event]) = openings w.history := by
    rw [openings, List.filterMap_append, List.filterMap_cons_none hplain, List.filterMap_nil,
      List.append_nil, openings]
  refine ⟨hnamed, ?_, ?_, ?_, ?_, ?_, ?_, follows_concat hw.follows hfollows⟩
  · intro n hn
    have hold := Nat.lt_of_lt_of_eq hn hlength
    show readState (ms.segment n) = stateOf (w.history ++ [event]) n
    rw [hstates n hold, hw.states n hold, state_of_concat]
  · intro name full hname
    show ms.names.lookup full = Blackboard.leads (w.history ++ [event]) name
    rw [hleads hname, hw.leads hname, leads_concat]
  · exact (congrArg List.length hopenings).trans hw.opened
  · intro i h hhandle
    exact (congrArg (·[i]?) hopenings).trans (hw.attached hhandle)
  · show ∀ other ∈ w.history ++ [event], ∀ n, _ → n < ms.segments.length
    rw [hlength]
    exact List.forall_mem_append.2 ⟨hw.told, List.forall_mem_singleton.2 hbound⟩
  · intro n hn
    have hnone : event.creates n = false := by
      cases event with
      | opened => cases hplain
      | _ => rfl
    show (w.history ++ [event]).countP (Event.creates n) = 1
    rw [List.countP_append, List.countP_singleton, hnone,
      hw.created n (Nat.lt_of_lt_of_eq hn hlength)]
    rfl

section

variable (hw : Sound w) {i : Nat} {h : Handle} (hhandle : w.handle? i = some h)

include hw hhandle

/-- A copy through a handle gives what the changes of its instance make of zeros. -/
theorem Sound.snapshot :
    Blackboard.snapshot w.memories h = .ok (stateOf w.history h.segment) := by
  rw [hw.named.snapshot (hw.bound hhandle), hw.states _ (hw.bound hhandle)]

/-- Copying changes nothing. -/
theorem Sound.copy {event : Event} (hevent : event = .copied h.segment (stateOf w.history h.segment)
    ∨ event = .pointed h.segment (stateOf w.history h.segment).sensorValues) :
    Sound (w.tell event) := by
  have hbound := hw.bound hhandle
  rcases hevent with rfl | rfl <;>
    exact hw.tell hw.named rfl (fun _ _ => rfl) (fun hname => rfl)
      (fun _ hn => Option.some.inj hn ▸ hbound) rfl rfl

/-- A change through a handle is one of its instance, and of no other. -/
theorem Sound.change (f : State → State) :
    Sound (w.change h f (update w.memories h f)) := by
  have hbound := hw.bound hhandle
  rw [hw.named.update_board hbound]
  refine hw.tell (hw.named.update hbound _) List.length_set ?_ (fun _ => rfl)
    (fun _ hn => Option.some.inj hn ▸ hbound) rfl (hw.exists_opened hbound)
  intro n hn
  rw [segment_update _ _ hbound, Event.change]
  split
  · next heq => rw [read_state_write_state, heq]
  · rfl

end

/-- Unlinking a name keeps the world sound. -/
theorem Sound.unlink (hw : Sound w) (name : String) : Sound (w.step (.unlink name)) := by
  rw [step]
  split
  · exact hw
  · next ms hunlink =>
      obtain ⟨gone, hgone, rfl⟩ := names_of_unlink hunlink
      refine hw.tell (hw.named.unlink gone) rfl (fun _ _ => rfl) ?_ nofun rfl trivial
      intro other full hfull
      rw [lookup_filter_ne]
      exact if_congr (eq_comm.trans (full_eq_iff hgone hfull)) rfl rfl

/-- Dropping a handle keeps the world sound. -/
theorem Sound.drop (hw : Sound w) (i : Nat) : Sound (w.step (.drop i)) := by
  have hkept {j : Nat} {h : Handle} (hhandle : (w.step (.drop i)).handle? j = some h) :
      w.handle? j = some h := by
    change (w.handles.set i none)[j]?.join = some h at hhandle
    rw [List.getElem?_set] at hhandle
    split at hhandle
    · split at hhandle <;> cases hhandle
    · exact hhandle
  exact ⟨hw.named, hw.states, hw.leads, hw.opened.trans List.length_set.symm,
    fun hhandle => hw.attached (hkept hhandle), hw.told, hw.created, hw.follows⟩

section

variable {after : Memories} {name : String} {h : Handle} {created : Bool}

/-- A handle that was opened stands behind all others, as its opening does. -/
theorem Sound.attached_concat (hw : Sound w) {i : Nat} {k : Handle}
    (hhandle : handle? ⟨after, w.handles ++ [some h],
      w.history ++ [.opened name h.segment created]⟩ i = some k) :
    (openings (w.history ++ [.opened name h.segment created]))[i]? = some k.segment := by
  change (w.handles ++ [some h])[i]?.join = some k at hhandle
  rw [openings_opened]
  by_cases hold : i < w.handles.length
  · rw [List.getElem?_append_left hold] at hhandle
    rw [List.getElem?_append_left (Nat.lt_of_lt_of_eq hold hw.opened.symm)]
    exact hw.attached hhandle
  · have hnew := Nat.le_of_not_lt hold
    rw [List.getElem?_append_right hnew] at hhandle
    rw [List.getElem?_append_right (Nat.le_trans (Nat.le_of_eq hw.opened) hnew), hw.opened]
    cases hindex : i - w.handles.length with
    | zero =>
        rw [hindex] at hhandle
        rw [← Option.some.inj hhandle]
        rfl
    | succ later =>
        rw [hindex] at hhandle
        cases hhandle

/-- A name that leads to an instance gets a handle of it. -/
theorem Sound.open_lead (hw : Sound w) {full : String} {n : Nat}
    (hname : systemName name = .ok full) (hlead : w.memories.names.lookup full = some n) :
    Sound ⟨w.memories, w.handles ++ [some ⟨n, full, boardSize, false⟩],
      w.history ++ [.opened name n false]⟩ := by
  have hbound := hw.named.bound hlead
  refine ⟨hw.named, ?_, ?_, ?_, hw.attached_concat, ?_, ?_, follows_concat hw.follows ?_⟩
  · intro m hm
    rw [state_of_concat]
    exact hw.states m hm
  · intro other full' hfull'
    rw [leads_concat, Event.lead]
    split
    · next hsame => rw [← (full_eq_iff hname hfull').2 hsame, hlead]
    · exact hw.leads hfull'
  · rw [openings_opened, List.length_append, List.length_append, hw.opened]
    rfl
  · refine List.forall_mem_append.2 ⟨hw.told, List.forall_mem_singleton.2 fun m hm => ?_⟩
    exact Option.some.inj hm ▸ hbound
  · intro m hm
    rw [List.countP_append, hw.created m hm]
    rfl
  · obtain ⟨first, hfirst⟩ := hw.exists_opened hbound
    exact ⟨(hw.leads hname).symm.trans hlead, nofun, fun hall => absurd hfirst (hall first true)⟩

/-- A name that leads nowhere gets a handle of a new instance. -/
theorem Sound.open_new (hw : Sound w) {full : String}
    (hname : systemName name = .ok full) (hlead : w.memories.names.lookup full = none) :
    Sound ⟨⟨w.memories.names ++ [(full, w.memories.segments.length)],
      w.memories.segments ++ [fresh]⟩,
      w.handles ++ [some ⟨w.memories.segments.length, full, boardSize, true⟩],
      w.history ++ [.opened name w.memories.segments.length true]⟩ := by
  -- no event is about an instance that is not there yet, so the new one is at zero
  have huntold : ∀ event ∈ w.history, event.instance? ≠ some w.memories.segments.length :=
    fun event hevent hinstance => Nat.lt_irrefl _ (hw.told event hevent _ hinstance)
  have hopens : Opens w.memories true name _ _ := .creates hname hlead
  have hlast {m : Nat} (hm : m < (w.memories.segments ++ [fresh]).length) :
      m < w.memories.segments.length ∨ m = w.memories.segments.length := by
    rw [List.length_append, List.length_singleton] at hm
    exact Nat.lt_succ_iff_lt_or_eq.1 hm
  refine ⟨hopens.named hw.named, ?_, ?_, ?_, hw.attached_concat, ?_, ?_,
    follows_concat hw.follows ?_⟩
  · intro m hm
    rw [state_of_concat]
    show _ = stateOf w.history m
    rcases hlast hm with hold | rfl
    · rw [segment_append_of_lt _ _ hold, hw.states m hold]
    · rw [segment_append_length, read_state_fresh, state_of_untold huntold]
  · intro other full' hfull'
    rw [lookup_concat hlead, leads_concat, ← hw.leads hfull']
    exact if_congr (eq_comm.trans (full_eq_iff hname hfull')) rfl rfl
  · rw [openings_opened, List.length_append, List.length_append, hw.opened]
    rfl
  · rw [List.length_append, List.length_singleton]
    refine List.forall_mem_append.2 ⟨fun event hevent m hm => ?_,
      List.forall_mem_singleton.2 fun m hm => ?_⟩
    · exact Nat.lt_succ_of_lt (hw.told event hevent m hm)
    · exact Option.some.inj hm ▸ Nat.lt_succ_self _
  · intro m hm
    rw [List.countP_append, List.countP_singleton]
    rcases hlast hm with hold | rfl
    · rw [hw.created m hold, if_neg]
      rw [Event.creates, Bool.true_and, beq_iff_eq]
      exact Nat.ne_of_gt hold
    · have hnone : w.history.countP (Event.creates w.memories.segments.length) = 0 := by
        rw [List.countP_eq_zero]
        intro event hevent hcreates
        obtain ⟨first, rfl⟩ := Event.opened_of_creates hcreates
        exact huntold _ hevent rfl
      rw [hnone, if_pos]
      rw [Event.creates, Bool.true_and, beq_self_eq_true]
  · exact ⟨(hw.leads hname).symm.trans hlead, fun _ other c hopened => huntold _ hopened rfl,
      fun _ => rfl⟩

end

/-- Opening a name keeps the world sound, whatever comes of it. -/
theorem Sound.attach (hw : Sound w) (descriptors : Bool) (name : String) :
    Sound (w.attach descriptors name) := by
  have hopens := hw.named.open_board descriptors name
  rw [World.attach]
  generalize openBoard w.memories descriptors name = opened at hopens ⊢
  obtain ⟨⟨result, after⟩, mapped⟩ := opened
  cases hopens with
  | fails => exact hw
  | attaches hname hlead => exact hw.open_lead hname hlead
  | creates hname hlead => exact hw.open_new hname hlead

/-- Every action keeps the world sound. -/
theorem sound_step (hw : Sound w) (action : Action) : Sound (w.step action) := by
  cases action with
  | attach descriptors name => exact hw.attach descriptors name
  | publish i s =>
      rw [step]
      split
      · exact hw
      · next h hhandle => exact hw.change hhandle fun _ => s
  | update i f =>
      rw [step]
      split
      · exact hw
      · next h hhandle => exact hw.change hhandle f
  | snapshot i =>
      rw [step]
      split
      · exact hw
      · next h hhandle =>
          rw [hw.snapshot hhandle]
          exact hw.copy hhandle (.inl rfl)
  | dataPoint i =>
      rw [step]
      split
      · exact hw
      · next h hhandle =>
          rw [dataPoint, hw.snapshot hhandle]
          exact hw.copy hhandle (.inr rfl)
  | unlink name => exact hw.unlink name
  | drop i => exact hw.drop i

/-- Behind any actions the world is sound. -/
theorem sound_run (actions : List Action) : Sound (run actions) := by
  induction actions using List.reverseRecOn with
  | nil => exact sound_start
  | append_singleton earlier action ih =>
      rw [run, List.foldl_concat]
      exact sound_step ih action

end World

/-- Whatever is done to boards, every instance is a register of its own. What is copied from one is
zeros with all its changes made to them in order, and copies and changes through a handle never
fail. A name leads to the instance of its last opening until it is unlinked; opening it attaches to
that instance, or else creates one, and changes no segment that is there, so every lock is made
once. Names that the system takes can be opened and unlinked, and reach one instance exactly if
they differ by no more than a slash in front. -/
theorem run_keeps_registers (actions : List Action) :
    let w := World.run actions
    (∀ before event after, w.history = before ++ event :: after → event.Follows before) ∧
    (∀ i h, w.handle? i = some h →
      (openings w.history)[i]? = some h.segment ∧
      w.history.countP (Event.creates h.segment) = 1 ∧
      snapshot w.memories h = .ok (stateOf w.history h.segment) ∧
      dataPoint w.memories h = .ok (stateOf w.history h.segment).sensorValues ∧
      ∀ f, ∃ ms, update w.memories h f = .ok ms) ∧
    (∀ descriptors name h, (openBoard w.memories descriptors name).result = .ok h →
      (openBoard w.memories descriptors name).after.segments =
        w.memories.segments ++ if h.created then [fresh] else []) ∧
    (∀ name full, systemName name = .ok full → Memories.reserved full = false →
      (∃ h, (openBoard w.memories true name).result = .ok h) ∧
        ∃ after, w.memories.unlink name = .ok after) ∧
    ∀ a b da db h k, (openBoard w.memories da a).result = .ok h →
      (openBoard (openBoard w.memories da a).after db b).result = .ok k →
      (h.segment = k.segment ↔ bare a = bare b) := by
  intro w
  have hw : w.Sound := World.sound_run actions
  refine ⟨hw.follows, fun i h hhandle => ?_, fun descriptors name h hopened => ?_,
    fun name full hname hfree =>
      ⟨hw.named.open_board_ok hname hfree, unlink_ok w.memories hname hfree⟩,
    fun a b da db h k ha hb => hw.named.same_instance_iff ha hb⟩
  · have hbound := hw.bound hhandle
    have hcopy := hw.snapshot hhandle
    refine ⟨hw.attached hhandle, hw.created _ hbound, hcopy, ?_, fun f => ?_⟩
    · rw [dataPoint, hcopy]
      rfl
    · exact ⟨_, hw.named.update_board hbound f⟩
  · have hopens := hw.named.open_board descriptors name
    rw [hopened] at hopens
    exact hopens.segments

/-- A name that was unlinked gets a new instance when it is opened again. -/
example : openings (World.run [.attach true "a", .attach true "/a", .unlink "a",
    .attach true "a"]).history = [0, 0, 1] := by
  decide +kernel

end EngineLink.Blackboard
