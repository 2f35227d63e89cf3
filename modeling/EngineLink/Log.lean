/-!
# Log events

What an operation tells an operator: a level, a sentence and named values. Operations return
their notices as data; each notice has its event.

The ports, the addresses and the descriptors of sockets are left out of the values of an event, as
the system chooses most of them.
-/

namespace EngineLink.Log

/-- How important an event is, the most severe first. -/
inductive Level
  | error | warn | info | debug | trace
  deriving DecidableEq

namespace Level

/-- The place of a level in the order of severity, the most severe first. -/
def rank : Level → Nat
  | error => 0
  | warn => 1
  | info => 2
  | debug => 3
  | trace => 4

/-- The lower-case name of a level. -/
def name : Level → String
  | error => "error"
  | warn => "warn"
  | info => "info"
  | debug => "debug"
  | trace => "trace"

/-- The upper-case name of a level. -/
def label : Level → String
  | error => "ERROR"
  | warn => "WARN"
  | info => "INFO"
  | debug => "DEBUG"
  | trace => "TRACE"

/-- All levels, the most severe first. -/
def all : List Level :=
  [error, warn, info, debug, trace]

/-- The level of a lower-case name. -/
def ofName? (name : String) : Option Level :=
  all.find? fun level => level.name == name

end Level

/-- One event with its named values in the order they are given. -/
structure Event where
  level : Level
  message : String
  fields : List (String × String)
  deriving DecidableEq

/-- The events that are at least as severe as `level`. -/
def visible (level : Level) (events : List Event) : List Event :=
  events.filter fun e => e.level.rank ≤ level.rank

end EngineLink.Log
