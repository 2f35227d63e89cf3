import EngineLink.Blackboard.Board
import EngineLink.Program.Exit
import EngineLink.Program.Output

/-!
# The blackboard command

Opens the blackboard of a name, which creates it if there is none, and prints its state once.
-/

namespace EngineLink.Snapshot

open Blackboard

/-- The view of a state that is asked for. -/
def view (full : Bool) : View :=
  if full then .full else .sensors

/-- What the command prints, or its failure, and the segments after it. -/
structure Outcome where
  result : Except CommandFailure String
  after : Memories
  /-- What the command has to tell. -/
  events : List Log.Event

/-- Prints the state of the blackboard of a name. -/
def run (ms : Memories) (descriptors : Bool) (name : String) (full : Bool) (format : OutputFormat)
    (time : String) : Outcome :=
  let opened := openBoard ms descriptors name
  let told := readerEvents name opened
  match opened.result with
  | .error e => ⟨.error (Exit.ofProvider "open failed" (.memory e)), opened.after, told⟩
  | .ok h =>
    let copied := snapshot opened.after h
    let result := match copied with
      | .error e => .error (Exit.ofProvider "snapshot failed" (.memory e))
      | .ok s => .ok (Output.blackboard format time h.name (view full) s)
    ⟨result, opened.after, told ++ [snapshotEvent copied]⟩

end EngineLink.Snapshot
