import EngineLink.Blackboard.State

/-!
# How a state stands in memory

A segment starts with a lock of forty bytes; the fields of the state follow, each at the next
multiple of the size of its numbers, and every number in little-endian order.

Read `fieldOffsets`, `readState` and `stateBytes` first.
-/

namespace EngineLink.Blackboard

/-- The bytes of the lock in front of a state. -/
def lockSize : Nat := 40

/-- The least multiple of `unit` that is not below `n`. -/
def alignUp (n unit : Nat) : Nat :=
  (n + unit - 1) / unit * unit

/-- The places of fields that follow one another from `start` on. -/
def fieldOffsets (start : Nat) : List Field → List (Field × Nat)
  | [] => []
  | f :: rest =>
    let place := alignUp start f.kind.size
    (f, place) :: fieldOffsets (place + f.count * f.kind.size) rest

/-- The place of every field in a segment. -/
def offsets : List (Field × Nat) :=
  fieldOffsets lockSize Field.all

/-- The place of a field in a segment. -/
def Field.offset (f : Field) : Nat :=
  (offsets.lookup f).getD 0

/-- The bytes of a field. -/
def Field.size (f : Field) : Nat :=
  f.count * f.kind.size

/-- The bytes of a segment that holds a blackboard. -/
def boardSize : Nat :=
  alignUp (Field.accelAcc.offset + Field.accelAcc.size) Kind.real.size

/-- The `n` low bytes of a number, the lowest first. -/
def littleEndian : Nat → Nat → List UInt8
  | 0, _ => []
  | n + 1, value => UInt8.ofNat value :: littleEndian n (value / 256)

/-- The number of bytes of which the lowest comes first. -/
def ofLittleEndian : List UInt8 → Nat
  | [] => 0
  | b :: rest => b.toNat + 256 * ofLittleEndian rest

/-- The bytes of a number. -/
def Kind.bytes : (k : Kind) → k.Value → List UInt8
  | .real, x => littleEndian 8 x.bits.toNat
  | .int, n => littleEndian 4 n.toUInt32.toNat

/-- The number that bytes hold. -/
def Kind.ofBytes : (k : Kind) → List UInt8 → k.Value
  | .real, bytes => ⟨UInt64.ofNat (ofLittleEndian bytes)⟩
  | .int, bytes => (UInt32.ofNat (ofLittleEndian bytes)).toInt32

/-- The bytes of the values of a field. -/
def Field.bytes (f : Field) (values : f.Values) : List UInt8 :=
  values.toList.flatMap f.kind.bytes

/-- The values of a field in bytes that start with them. -/
def Field.ofBytes (f : Field) (bytes : List UInt8) : f.Values :=
  Vector.ofFn fun i => f.kind.ofBytes ((bytes.drop (i * f.kind.size)).take f.kind.size)

/-- The contents of a segment. Bytes behind those that are held are zero. -/
structure Memory where
  size : Nat
  held : List UInt8
  deriving DecidableEq

namespace Memory

/-- A segment of so many zero bytes. -/
def zero (size : Nat) : Memory :=
  ⟨size, []⟩

/-- The bytes from a place on. -/
def read (m : Memory) (place count : Nat) : List UInt8 :=
  let found := (m.held.drop place).take count
  found ++ List.replicate (count - found.length) 0

/-- The same segment with other bytes from a place on. -/
def write (m : Memory) (place : Nat) (bytes : List UInt8) : Memory :=
  { m with held := m.read 0 place ++ bytes ++ m.held.drop (place + bytes.length) }

/-- The segment cut or filled up with zero bytes to another size. -/
def resize (m : Memory) (size : Nat) : Memory :=
  ⟨size, m.held.take size⟩

end Memory

/-- The state that a segment holds. -/
def readState (m : Memory) : State :=
  fun f => f.ofBytes (m.read f.offset f.size)

/-- The segment with another state in it. -/
def writeState (m : Memory) (s : State) : Memory :=
  Field.all.foldl (fun m f => m.write f.offset (f.bytes (s f))) m

/-- The place of the kind of a lock. -/
def lockKindOffset : Nat := 16

/-- The kind of a lock that several programs share. -/
def sharedLockKind : Nat := 128

/-- The lock of a new segment, shared between programs and free. -/
def newLock : List UInt8 :=
  List.replicate lockKindOffset 0 ++ littleEndian 4 sharedLockKind ++
    List.replicate (lockSize - lockKindOffset - 4) 0

/-- A lock of this kind can be taken: apart from the mark of a shared one, it is one of the four
plain kinds or has a protocol of its own. -/
def lockable (kind : Nat) : Bool :=
  let k := kind % 128
  k < 4 || 16 ≤ k

/-- The lock of a segment can be taken. -/
def canLock (m : Memory) : Bool :=
  lockable (ofLittleEndian (m.read lockKindOffset 4))

end EngineLink.Blackboard
