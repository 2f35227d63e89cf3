import EngineLink.Blackboard.Board
import Mathlib.Algebra.Group.Nat.Defs
import Mathlib.Data.List.Pairwise

/-!
# What a segment holds

A state that is written into a segment is read back as it was, and the lock in front of it stays
as it is: every number is read from the bytes it was written as, and no two fields share a byte.
Read `Memory.byte` and `IsBoard` first; `read_state_write_state` and `read_state_fresh` are the
results.
-/

namespace EngineLink.Blackboard

/-! ## Bytes at places -/

namespace Memory

/-- The byte at a place. -/
def byte (m : Memory) (i : Nat) : UInt8 :=
  m.held[i]?.getD 0

variable {m : Memory} {place count : Nat} {bytes : List UInt8}

/-- As many bytes are read as are asked for. -/
@[simp] theorem read_length : (m.read place count).length = count := by
  simp only [read, List.length_append, List.length_take, List.length_drop, List.length_replicate]
  omega

/-- A byte that is read is the one at its place. -/
theorem read_getElem {i : Nat} (h : i < (m.read place count).length) :
    (m.read place count)[i] = m.byte (place + i) := by
  rw [read_length] at h
  simp only [read, byte]
  by_cases hin : i < ((m.held.drop place).take count).length
  · have hheld : place + i < m.held.length := by
      rw [List.length_take, List.length_drop] at hin
      omega
    rw [List.getElem_append_left hin, List.getElem_take, List.getElem_drop,
      List.getElem?_eq_getElem hheld, Option.getD_some]
  · have hout : m.held.length ≤ place + i := by
      rw [List.length_take, List.length_drop] at hin
      omega
    rw [List.getElem_append_right (Nat.le_of_not_lt hin), List.getElem_replicate,
      List.getElem?_eq_none hout, Option.getD_none]

/-- What is read depends only on the bytes at the places it is read from. -/
theorem read_congr {m' : Memory} (h : ∀ i < count, m'.byte (place + i) = m.byte (place + i)) :
    m'.read place count = m.read place count := by
  refine List.ext_getElem (by rw [read_length, read_length]) fun i hi hi' => ?_
  rw [read_getElem, read_getElem, h i (by rwa [read_length] at hi)]

/-- Bytes that are written stand at their places. -/
theorem byte_write_inside {i : Nat} (h : i < bytes.length) :
    (m.write place bytes).byte (place + i) = bytes[i] := by
  have hlength : (m.read 0 place ++ bytes).length = place + bytes.length := by
    rw [List.length_append, read_length]
  simp only [byte, write]
  rw [List.getElem?_append_left (by omega), List.getElem?_append_right (by rw [read_length]; omega),
    read_length, Nat.add_sub_cancel_left, List.getElem?_eq_getElem h, Option.getD_some]

/-- The bytes at other places stay. -/
theorem byte_write_outside {i : Nat} (h : i < place ∨ place + bytes.length ≤ i) :
    (m.write place bytes).byte i = m.byte i := by
  have hlength : (m.read 0 place ++ bytes).length = place + bytes.length := by
    rw [List.length_append, read_length]
  rcases h with hleft | hright
  · have hread : i < (m.read 0 place).length := by rwa [read_length]
    simp only [byte, write]
    rw [List.append_assoc, List.getElem?_append_left hread, List.getElem?_eq_getElem hread,
      Option.getD_some, read_getElem, Nat.zero_add, byte]
  · simp only [byte, write]
    rw [List.getElem?_append_right (by omega), hlength, List.getElem?_drop,
      Nat.add_sub_cancel' hright]

/-- Bytes that are written are read at their place. -/
theorem read_write_same : (m.write place bytes).read place bytes.length = bytes := by
  refine List.ext_getElem read_length fun i hi hi' => ?_
  rw [read_getElem, byte_write_inside hi']

/-- Bytes at other places are read as before. -/
theorem read_write_other {place' : Nat}
    (h : place' + count ≤ place ∨ place + bytes.length ≤ place') :
    (m.write place bytes).read place' count = m.read place' count :=
  read_congr fun i hi => byte_write_outside (by omega)

end Memory

/-! ## Numbers and fields in bytes -/

/-- A number is written in the number of bytes that it is given. -/
@[simp] theorem little_endian_length (n value : Nat) : (littleEndian n value).length = n := by
  induction n generalizing value with
  | zero => rfl
  | succ n ih => rw [littleEndian, List.length_cons, ih]

/-- A number that fits into its bytes is read from them. -/
theorem of_little_endian_little_endian {n value : Nat} (h : value < 256 ^ n) :
    ofLittleEndian (littleEndian n value) = value := by
  induction n generalizing value with
  | zero =>
      rw [Nat.pow_zero, Nat.lt_one_iff] at h
      rw [h]
      rfl
  | succ n ih =>
      have hrest : value / 256 < 256 ^ n := by
        rw [Nat.pow_succ] at h
        exact Nat.div_lt_of_lt_mul (by rwa [Nat.mul_comm])
      rw [littleEndian, ofLittleEndian, ih hrest, UInt8.toNat_ofNat']
      exact Nat.mod_add_div value 256

namespace Kind

/-- A number is written in as many bytes as numbers of its kind take. -/
@[simp] theorem bytes_length (k : Kind) (x : k.Value) : (k.bytes x).length = k.size := by
  cases k <;> exact little_endian_length _ _

/-- A number is read back from its bytes. -/
theorem of_bytes_bytes (k : Kind) (x : k.Value) : k.ofBytes (k.bytes x) = x := by
  cases k with
  | real =>
      have hfits : x.bits.toNat < 256 ^ 8 := x.bits.toNat_lt
      simp only [ofBytes, bytes]
      rw [of_little_endian_little_endian hfits, UInt64.ofNat_toNat]
  | int =>
      have hfits : x.toUInt32.toNat < 256 ^ 4 := x.toUInt32.toNat_lt
      simp only [ofBytes, bytes]
      rw [of_little_endian_little_endian hfits, UInt32.ofNat_toNat, Int32.toInt32_toUInt32]

/-- Zero bytes are the number zero of every kind. -/
theorem of_bytes_zero (k : Kind) : k.ofBytes (List.replicate k.size 0) = k.zero := by
  cases k <;> rfl

end Kind

/-- Of pieces of one length, one behind the other, each is found at its place. -/
theorem take_drop_flatMap {α : Type} {f : α → List UInt8} {n : Nat} (hf : ∀ x, (f x).length = n)
    (l : List α) (i : Nat) (hi : i < l.length) :
    ((l.flatMap f).drop (i * n)).take n = f l[i] := by
  induction l generalizing i with
  | nil => exact absurd hi (Nat.not_lt_zero i)
  | cons x rest ih =>
      cases i with
      | zero => rw [List.flatMap_cons, Nat.zero_mul, List.drop_zero, List.take_left' (hf x)]; rfl
      | succ i =>
          rw [List.flatMap_cons, Nat.succ_mul, Nat.add_comm, ← List.drop_drop,
            List.drop_left' (hf x)]
          exact ih i (Nat.lt_of_succ_lt_succ hi)

namespace Field

/-- A field is written in as many bytes as it takes. -/
@[simp] theorem bytes_length (f : Field) (values : f.Values) :
    (f.bytes values).length = f.size := by
  rw [bytes, List.length_flatMap, List.map_congr_left fun x _ => f.kind.bytes_length x,
    List.map_const', List.sum_replicate_nat, Vector.length_toList, size]

/-- The values of a field are read from the bytes they are written as. -/
theorem of_bytes_bytes (f : Field) (values : f.Values) : f.ofBytes (f.bytes values) = values := by
  refine Vector.ext fun i hi => ?_
  have hlist : i < values.toList.length := by rwa [Vector.length_toList]
  rw [ofBytes, Vector.getElem_ofFn, bytes, take_drop_flatMap f.kind.bytes_length _ i hlist,
    f.kind.of_bytes_bytes, Vector.getElem_toList]

/-- Zero bytes are zeros. -/
theorem of_bytes_zero (f : Field) :
    f.ofBytes (List.replicate f.size 0) = Vector.replicate f.count f.kind.zero := by
  refine Vector.ext fun i hi => ?_
  have hfits : i * f.kind.size + f.kind.size ≤ f.size := by
    rw [← Nat.succ_mul]
    exact Nat.mul_le_mul_right _ hi
  rw [ofBytes, Vector.getElem_ofFn, Vector.getElem_replicate, List.drop_replicate,
    List.take_replicate, Nat.min_eq_left (Nat.le_sub_of_add_le' hfits), f.kind.of_bytes_zero]

end Field

/-! ## Places of fields -/

/-- Numbers of every kind take bytes. -/
theorem Kind.size_pos (k : Kind) : 0 < k.size := by
  cases k <;> decide

/-- The next multiple of a unit is not in front of the place. -/
theorem le_align_up (n : Nat) {unit : Nat} (h : 0 < unit) : n ≤ alignUp n unit := by
  have hdiv := Nat.div_add_mod (n + unit - 1) unit
  have hmod := Nat.mod_lt (n + unit - 1) h
  rw [alignUp, Nat.mul_comm]
  omega

/-- No field stands before the place from which on the fields are laid out. -/
theorem le_of_mem_field_offsets {start : Nat} {fields : List Field} {f : Field} {place : Nat}
    (h : (f, place) ∈ fieldOffsets start fields) : start ≤ place := by
  induction fields generalizing start with
  | nil => cases h
  | cons g rest ih =>
      have hstart := le_align_up start g.kind.size_pos
      rcases List.mem_cons.1 h with heq | hrest
      · rw [(Prod.mk.inj heq).2]
        exact hstart
      · exact Nat.le_trans hstart (Nat.le_trans (Nat.le_add_right _ _) (ih hrest))

/-- Every field ends before the fields behind it. -/
theorem field_offsets_pairwise (start : Nat) (fields : List Field) :
    (fieldOffsets start fields).Pairwise fun a b => a.2 + a.1.size ≤ b.2 := by
  induction fields generalizing start with
  | nil => exact .nil
  | cons f rest ih =>
      refine .cons (fun b hb => ?_) (ih _)
      exact le_of_mem_field_offsets hb

/-- Every field gets one place, in the order of the fields. -/
theorem field_offsets_fields (start : Nat) (fields : List Field) :
    (fieldOffsets start fields).map Prod.fst = fields := by
  induction fields generalizing start with
  | nil => rfl
  | cons f rest ih => rw [fieldOffsets, List.map_cons, ih]

namespace Field

/-- Every field is among all of them. -/
theorem mem_all (f : Field) : f ∈ all := by
  cases f <;> decide

/-- The place of a field is one that was laid out for it. -/
theorem offset_mem (f : Field) : (f, f.offset) ∈ offsets := by
  have hmem : f ∈ offsets.map Prod.fst := by
    rw [offsets, field_offsets_fields]
    exact f.mem_all
  obtain ⟨entry, hentry, rfl⟩ := List.mem_map.1 hmem
  have hsome : (offsets.lookup entry.1).isSome := List.lookup_isSome_iff.2 ⟨entry, hentry, by simp⟩
  obtain ⟨place, hplace⟩ := Option.isSome_iff_exists.1 hsome
  obtain ⟨before, behind, heq, -⟩ := List.lookup_eq_some_iff.1 hplace
  rw [offset, hplace, Option.getD_some, heq]
  exact List.mem_append_right before List.mem_cons_self

/-- No two fields share a byte. -/
theorem offset_disjoint {f g : Field} (h : f ≠ g) :
    f.offset + f.size ≤ g.offset ∨ g.offset + g.size ≤ f.offset := by
  let Apart (a b : Field × Nat) : Prop := a.2 + a.1.size ≤ b.2 ∨ b.2 + b.1.size ≤ a.2
  have hsymm : Std.Symm Apart := ⟨fun _ _ => Or.symm⟩
  have hpairs : offsets.Pairwise Apart := (field_offsets_pairwise lockSize all).imp Or.inl
  exact hpairs.forall f.offset_mem g.offset_mem fun heq => h (Prod.mk.inj heq).1

/-- The lock stands in front of every field. -/
theorem lock_le_offset (f : Field) : lockSize ≤ f.offset :=
  le_of_mem_field_offsets f.offset_mem

end Field

/-! ## States in segments -/

/-- The segment with the values that a state gives to some fields. -/
def writeFields (m : Memory) (s : State) (fields : List Field) : Memory :=
  fields.foldl (fun m f => m.write f.offset (f.bytes (s f))) m

section

variable (m : Memory) (s : State) (fields : List Field)

/-- Fields are written into a segment without changing its size. -/
@[simp] theorem size_write_fields : (writeFields m s fields).size = m.size := by
  induction fields generalizing m with
  | nil => rfl
  | cons f rest ih => exact ih _

/-- Writing fields leaves what stands beside them. -/
theorem read_write_fields_other {place count : Nat}
    (h : ∀ f ∈ fields, place + count ≤ f.offset ∨ f.offset + f.size ≤ place) :
    (writeFields m s fields).read place count = m.read place count := by
  induction fields generalizing m with
  | nil => rfl
  | cons f rest ih =>
      obtain ⟨hfirst, hrest⟩ := List.forall_mem_cons.1 h
      refine (ih _ hrest).trans (Memory.read_write_other ?_)
      rwa [Field.bytes_length]

/-- Of the fields that are written, each is read as it was written. -/
theorem read_write_fields_same {f : Field} (h : f ∈ fields) :
    (writeFields m s fields).read f.offset f.size = f.bytes (s f) := by
  induction fields generalizing m with
  | nil => cases h
  | cons g rest ih =>
      by_cases hrest : f ∈ rest
      · exact ih _ hrest
      · obtain rfl : f = g := (List.mem_cons.1 h).resolve_right hrest
        refine (read_write_fields_other _ s rest fun g hg => ?_).trans ?_
        · exact Field.offset_disjoint fun heq => hrest (heq ▸ hg)
        · rw [← f.bytes_length (s f)]
          exact Memory.read_write_same

end

/-- A state that was written is read back. -/
theorem read_state_write_state (m : Memory) (s : State) : readState (writeState m s) = s := by
  funext f
  have hread := read_write_fields_same m s Field.all f.mem_all
  exact (congrArg f.ofBytes hread).trans (f.of_bytes_bytes (s f))

/-- The lock of a segment stands as it is when a state is written behind it. -/
theorem can_lock_write_state (m : Memory) (s : State) : canLock (writeState m s) = canLock m := by
  have hread : (writeState m s).read lockKindOffset 4 = m.read lockKindOffset 4 := by
    refine read_write_fields_other m s Field.all fun f _ => .inl ?_
    exact Nat.le_trans (by decide) f.lock_le_offset
  rw [canLock, canLock, hread]

/-! ## Segments of blackboards -/

/-- The segment has the size of a blackboard, and its lock can be taken. -/
structure IsBoard (m : Memory) : Prop where
  size : m.size = boardSize
  lock : canLock m = true

/-- The segment of a new blackboard, with its lock. -/
def fresh : Memory :=
  ((Memory.zero 0).resize boardSize).write 0 newLock

/-- A new segment with its lock is a blackboard. -/
theorem is_board_fresh : IsBoard fresh where
  size := rfl
  lock := by decide

/-- A new blackboard holds zeros. -/
theorem read_state_fresh : readState fresh = State.zero := by
  funext f
  have hread : fresh.read f.offset f.size = List.replicate f.size 0 := by
    rw [fresh, Memory.read_write_other (.inr f.lock_le_offset)]
    simp [Memory.read, Memory.resize, Memory.zero]
  exact (congrArg f.ofBytes hread).trans f.of_bytes_zero

/-- A blackboard stays one when another state is written into it. -/
theorem IsBoard.write {m : Memory} (h : IsBoard m) (s : State) : IsBoard (writeState m s) where
  size := (size_write_fields m s Field.all).trans h.size
  lock := (can_lock_write_state m s).trans h.lock

end EngineLink.Blackboard
