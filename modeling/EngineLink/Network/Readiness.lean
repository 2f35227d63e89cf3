import EngineLink.Network.Error

/-!
# Waiting for descriptors

A program waits until one of its descriptors has something to read, has ended or has failed.
The answer tells for each of them, in the order in which they were named, whether it is ready.

Read `Report.isReady` and `Readiness.wait` first.
-/

namespace EngineLink

/-- A connection, by the order in which the system made it. -/
abbrev Connection := Nat

/-- What the system reports of a descriptor. -/
structure Report where
  /-- There are bytes to read, or a connection to accept. -/
  input : Bool := false
  /-- The other side has gone. -/
  hangup : Bool := false
  /-- The next read fails. -/
  failure : Bool := false
  /-- There is no such descriptor. -/
  invalid : Bool := false
  deriving DecidableEq

namespace Report

/-- Nothing is reported. -/
def nothing : Report := {}

/-- The next call on the descriptor does not block: it is ready. -/
def isReady (r : Report) : Bool :=
  r.input || r.hangup || r.failure

/-- The report ends a wait, even if the descriptor is not ready. -/
def wakes (r : Report) : Bool :=
  r.isReady || r.invalid

end Report

/-- Which descriptors are ready, in the order in which they were named. -/
structure Readiness where
  ready : List Bool
  deriving DecidableEq

namespace Readiness

/-- The descriptor at a place is ready; behind the last one there is none. -/
def isReady (r : Readiness) (place : Nat) : Bool :=
  (r.ready[place]?).getD false

/-- How many descriptors are ready. -/
def count (r : Readiness) : Nat :=
  r.ready.count true

/-- What reports say. -/
def ofReports (reports : List Report) : Readiness :=
  ⟨reports.map Report.isReady⟩

end Readiness

/-- How many descriptors a program may have. -/
inductive DescriptorLimit
  /-- It has room for new ones. -/
  | roomy
  /-- It cannot make a new one. -/
  | reached
  /-- It cannot even wait for those that it has. -/
  | exceeded
  deriving DecidableEq

namespace DescriptorLimit

/-- Why a new descriptor cannot be made, if it cannot. -/
def refusal? : DescriptorLimit → Option SystemError
  | roomy => none
  | reached | exceeded => some (.code 24)

/-- A wait for so many descriptors is refused. -/
def refusesWait (limit : DescriptorLimit) (count : Nat) : Bool :=
  limit == exceeded && count != 0

end DescriptorLimit

/-- Waits for descriptors of which the system reports this. A signal ends the wait if nothing
else does; without one the wait ends when its time is over. -/
def Readiness.wait (limit : DescriptorLimit) (signal : Bool) (reports : List Report) :
    Except SystemError Readiness :=
  if limit.refusesWait reports.length then .error (.code 22)
  else if signal && !reports.any Report.wakes then .error (.code 4)
  else .ok (.ofReports reports)

end EngineLink
