/-!
# The latest value

A cell that one thread replaces and others read. A thread that fails while it holds the cell
leaves the value that is in it.
-/

namespace EngineLink.Telemetry

/-- A shared cell with the value stored last. -/
structure Latest (α : Type) where
  value : α

namespace Latest

variable {α : Type}

/-- The value stored last. -/
def get (cell : Latest α) : α :=
  cell.value

/-- Stores a value and gives the one it replaces. -/
def replace (cell : Latest α) (value : α) : Latest α × α :=
  (⟨value⟩, cell.value)

end Latest

end EngineLink.Telemetry
