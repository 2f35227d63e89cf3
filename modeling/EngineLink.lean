import EngineLink.Binary64.Arithmetic
import EngineLink.Binary64.Basic
import EngineLink.Blackboard.Board
import EngineLink.Blackboard.Error
import EngineLink.Blackboard.Layout
import EngineLink.Blackboard.Name
import EngineLink.Blackboard.Namespace
import EngineLink.Blackboard.State
import EngineLink.Calendar
import EngineLink.Command.Bridge
import EngineLink.Command.Bus
import EngineLink.Command.Envelope
import EngineLink.Command.Error
import EngineLink.Decimal.Fixed
import EngineLink.Decimal.Read
import EngineLink.Decimal.Shortest
import EngineLink.Decimal.Style
import EngineLink.Duration
import EngineLink.Framing.LineBuffer
import EngineLink.Framing.Sentinel
import EngineLink.Host.Console
import EngineLink.Host.Segments
import EngineLink.Host.Sockets
import EngineLink.Json.Basic
import EngineLink.Json.Printer
import EngineLink.Json.Reader
import EngineLink.LineServer.Basic
import EngineLink.LineServer.Error
import EngineLink.LineServer.Loopback
import EngineLink.LineServer.Notice
import EngineLink.LineServer.Slot
import EngineLink.LineServer.Surroundings
import EngineLink.Log
import EngineLink.Main
import EngineLink.Network.Dial
import EngineLink.Network.Error
import EngineLink.Network.Listening
import EngineLink.Network.Readiness
import EngineLink.Program.Arguments
import EngineLink.Program.Exit
import EngineLink.Program.Help
import EngineLink.Program.Invocation
import EngineLink.Program.Listener
import EngineLink.Program.LogFilter
import EngineLink.Program.Output
import EngineLink.Program.Sampler
import EngineLink.Program.Snapshot
import EngineLink.Program.Version
import EngineLink.SystemError
import EngineLink.Telemetry.Config
import EngineLink.Telemetry.DataPoint
import EngineLink.Telemetry.Error
import EngineLink.Telemetry.Intake
import EngineLink.Telemetry.Latest
import EngineLink.Telemetry.Link
import EngineLink.Telemetry.Reader
import EngineLink.Telemetry.Vector
import EngineLink.Text.Blank
import EngineLink.Text.Digits
import EngineLink.Text.Literal
import EngineLink.Text.Marks
import EngineLink.Text.Table
import EngineLink.Text.Utf8
import EngineLink.Text.Width
import EngineLink.Proofs.Framing.LineStream
import EngineLink.Proofs.Framing.Accesses
import EngineLink.Proofs.LineServer.Serving
import EngineLink.Proofs.LineServer.Session
import EngineLink.Proofs.LineServer.Readings
import EngineLink.Proofs.LineServer.Delivery
import EngineLink.Proofs.Json.Strings
import EngineLink.Proofs.Json.Objects
import EngineLink.Proofs.Json.Nulls
import EngineLink.Proofs.Json.Suffixes
import EngineLink.Proofs.Text.Lossy
import EngineLink.Proofs.Text.IllFormed
import EngineLink.Proofs.Command.Wire
import EngineLink.Proofs.LineServer.Undisturbed
import EngineLink.Proofs.LineServer.Guarded
import EngineLink.Proofs.LineServer.Settling
import EngineLink.Proofs.LineServer.Isolation
import EngineLink.Proofs.LineServer.SlotTable
import EngineLink.Proofs.Command.Forwarding
import EngineLink.Proofs.Command.Running
import EngineLink.Proofs.Command.Terminated
import EngineLink.Proofs.Framing.Messages
import EngineLink.Proofs.Framing.Calls
import EngineLink.Proofs.Telemetry.Stored
import EngineLink.Proofs.Binary64.Rounding
import EngineLink.Proofs.Binary64.Whole
import EngineLink.Proofs.Text.Numerals
import EngineLink.Proofs.Decimal.Integers
import EngineLink.Proofs.Calendar.Gregorian
import EngineLink.Proofs.Calendar.Seconds
import EngineLink.Proofs.Telemetry.Values
import EngineLink.Proofs.Telemetry.Dates
import EngineLink.Proofs.Telemetry.Occurrences
import EngineLink.Proofs.Telemetry.Moments
import EngineLink.Proofs.Network.Dialling
import EngineLink.Proofs.Telemetry.CommandPort
import EngineLink.Proofs.Framing.Written
import EngineLink.Proofs.Program.Counted
import EngineLink.Proofs.Program.Watch
import EngineLink.Proofs.Blackboard.Contents
import EngineLink.Proofs.Blackboard.Failures
import EngineLink.Proofs.Blackboard.Instances
import EngineLink.Proofs.Blackboard.Registers
import EngineLink.Proofs.Framing.Interruptions
import EngineLink.Proofs.Framing.RawLines
import EngineLink.Proofs.Telemetry.Vectors
import EngineLink.Proofs.Program.Spans
import EngineLink.Proofs.Binary64.Overflow
import EngineLink.Proofs.Decimal.Shortest
import EngineLink.Proofs.Json.Magnitudes
import EngineLink.Proofs.Json.Numbers
import EngineLink.Proofs.Json.Spellings
import EngineLink.Proofs.Command.Members
