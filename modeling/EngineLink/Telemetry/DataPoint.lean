import EngineLink.Calendar
import EngineLink.Decimal.Fixed
import EngineLink.Json.Printer
import EngineLink.Log
import EngineLink.Telemetry.Vector

/-!
# Data points

A telemetry message is a list of lines together with a view of them as named values. A line
`key = value` gives a value, a `TIME` line gives the parts of its stamp and what follows from
them, and any other line is a key with an empty value. The first value of a key stays.

Read `addLine` and `DataPoint.ofLines` first.
-/

namespace EngineLink.Telemetry

/-- Named values in the order in which the names first occurred. -/
abbrev Values := List (String × String)

/-- Adds a value unless the key has one. -/
def addNew (values : Values) (key value : String) : Values :=
  if (values.lookup key).isSome then values else values ++ [(key, value)]

/-- Adds several values, each unless its key has one. -/
def addAllNew (values : Values) (more : List (String × String)) : Values :=
  more.foldl (fun held entry => addNew held entry.1 entry.2) values

/-- The parts of a text before and behind the first `mark`. -/
def splitFirst? (mark : Char) : List Char → Option (List Char × List Char)
  | [] => none
  | c :: rest =>
    if c = mark then some ([], rest)
    else (splitFirst? mark rest).map fun parts => (c :: parts.1, parts.2)

/-- The rest of a text behind a beginning that it has. -/
def behind? (beginning text : List Char) : Option (List Char) :=
  if beginning.isPrefixOf text then some (text.drop beginning.length) else none

/-- Why a stamp gives no date. -/
inductive StampFault
  | noDate
  | noClock
  | notInteger
  | notNumber
  | outOfRange
  deriving DecidableEq

/-- The words for a stamp that gives no date. -/
def StampFault.message : StampFault → String
  | noDate => "expected YYYY-DDD-HH:MM:SS"
  | noClock => "expected HH:MM:SS"
  | notInteger => "non-integer date field"
  | notNumber => "non-numeric seconds"
  | outOfRange => "date field out of range"

/-- The five texts of a stamp `YYYY-DDD-HH:MM:SS`, each with its key. -/
def stampFields (stamp : List Char) : Except StampFault (List (String × String)) :=
  match splitFirst? '-' stamp with
  | none => .error .noDate
  | some (year, rest) =>
    match splitFirst? '-' rest with
    | none => .error .noDate
    | some (day, clock) =>
      match splitFirst? ':' clock with
      | none => .error .noClock
      | some (hour, rest') =>
        match splitFirst? ':' rest' with
        | none => .error .noClock
        | some (minute, second) =>
          let field (key : String) (cs : List Char) := (key, String.ofList (Text.trimChars cs))
          .ok [field "YEAR" year, field "DOY" day, field "HOUR" hour, field "MINUTE" minute,
            field "SECOND" second]

/-- An instant as a stamp names it. -/
structure Instant where
  year : Int
  dayOfYear : Int
  hour : Int
  minute : Int
  second : Binary64
  deriving DecidableEq

/-- The text of a key without white space around it, empty if there is none. -/
def fieldText (values : Values) (key : String) : List Char :=
  Text.trimChars ((values.lookup key).getD "").toList

/-- The integer of a key. -/
def integerField (values : Values) (key : String) : Except StampFault Int :=
  match Text.readInt64? (fieldText values key) with
  | some n => .ok n
  | none => .error .notInteger

/-- The year, day, hour and minute lie in their ranges and the second is finite. -/
def Instant.inRange (t : Instant) : Bool :=
  1 ≤ t.year && t.year ≤ 9999 && 1 ≤ t.dayOfYear && t.dayOfYear ≤ 366 && 0 ≤ t.hour &&
    t.hour < 24 && 0 ≤ t.minute && t.minute < 60 && t.second.isFinite

/-- The instant that the date keys of the values name. -/
def readInstant (values : Values) : Except StampFault Instant := do
  let year ← integerField values "YEAR"
  let dayOfYear ← integerField values "DOY"
  let hour ← integerField values "HOUR"
  let minute ← integerField values "MINUTE"
  match Decimal.read (fieldText values "SECOND") with
  | .error _ => .error .notNumber
  | .ok second =>
    let t : Instant := ⟨year, dayOfYear, hour, minute, second⟩
    if t.inRange then .ok t else .error .outOfRange

/-- The values that follow from an instant. -/
def Instant.derived (t : Instant) : List (String × String) :=
  let date := Calendar.monthDay t.year t.dayOfYear
  let seconds := Calendar.secondsSinceEpoch t.year date.1 date.2 t.hour t.minute t.second
  [("MONTH", Text.ofInt date.1), ("DAY", Text.ofInt date.2),
    ("ABSTIME", String.ofList (Decimal.fixed 6 seconds))]

/-- Adds the parts of a stamp and what follows from the date keys then held. A fault keeps what
was added before it. -/
def addStamp (values : Values) (stamp : List Char) : Values × Option StampFault :=
  match stampFields stamp with
  | .error fault => (values, some fault)
  | .ok parts =>
    let values := addAllNew values parts
    match readInstant values with
    | .error fault => (values, some fault)
    | .ok t => (addAllNew values t.derived, none)

/-- The beginning of a line that carries a stamp, and the key of the stamp. -/
def timeKey : String := "TIME"

/-- A stamp that gave no date. -/
structure BadStamp where
  stamp : String
  fault : StampFault
  deriving DecidableEq

/-- Adds the values of one line. -/
def addLine (values : Values) (line : String) : Values × Option BadStamp :=
  match splitFirst? '=' line.toList with
  | some (key, value) =>
    let key := String.ofList (Text.trimChars key)
    (addNew values key (String.ofList (Text.trimChars value)), none)
  | none =>
    match behind? timeKey.toList line.toList with
    | some rest =>
      let stamp := Text.trimChars rest
      let added := addStamp (addNew values timeKey (String.ofList stamp)) stamp
      (added.1, added.2.map fun fault => ⟨String.ofList stamp, fault⟩)
    | none => (addNew values (Text.trim line) "", none)

/-- A message with the view of its lines as named values. -/
structure DataPoint where
  lines : List String
  values : Values
  deriving DecidableEq

namespace DataPoint

/-- The message of no line. -/
def empty : DataPoint :=
  ⟨[], []⟩

/-- The named values of lines, added to those already held. -/
def valuesFrom (values : Values) (lines : List String) : Values :=
  lines.foldl (fun held line => (addLine held line).1) values

/-- The data point of a message. -/
def ofLines (lines : List String) : DataPoint :=
  ⟨lines, valuesFrom [] lines⟩

/-- The stamps among lines that gave no date, in order. -/
def badStamps (values : Values) : List String → List BadStamp
  | [] => []
  | line :: rest =>
    let added := addLine values line
    added.2.toList ++ badStamps added.1 rest

/-- The log events of making a data point of lines. -/
def events (lines : List String) : List Log.Event :=
  (badStamps [] lines).map (fun bad =>
      ⟨.warn, "ignoring malformed telemetry timestamp",
        [("stamp", bad.stamp), ("reason", bad.fault.message)]⟩) ++
    [⟨.trace, "parsed telemetry data point",
      [("lines", Text.ofNat lines.length), ("keys", Text.ofNat (valuesFrom [] lines).length)]⟩]

/-- The value of a key. -/
def value? (p : DataPoint) (key : String) : Option String :=
  p.values.lookup key

/-- The vector under a key. -/
def vector? (p : DataPoint) (key : String) : Option (List Binary64) :=
  (p.value? key).bind fun text => (readVector text.toList).toOption

/-- The seconds since noon of 1 January 2000. -/
def absTime? (p : DataPoint) : Option Binary64 :=
  (p.value? "ABSTIME").bind fun text => (Decimal.read text.toList).toOption

/-- The message has no line. -/
def isEmpty (p : DataPoint) : Bool :=
  p.lines.isEmpty

/-- The values in the order of their keys. -/
def sortedValues (p : DataPoint) : List (String × String) :=
  p.values.mergeSort fun a b => decide (¬ b.1 < a.1)

/-- A data point on one line. -/
def display (p : DataPoint) : String :=
  "42 Data Point: " ++ String.join p.lines

/-- The lines as a JSON array. -/
def linesJson (p : DataPoint) : Json :=
  .array (p.lines.map .string)

/-- The values as a JSON object, in the order of their keys. -/
def valuesJson (p : DataPoint) : Json :=
  .object (p.sortedValues.map fun entry => (entry.1, .string entry.2))

/-- A data point as a JSON value. -/
def toJson (p : DataPoint) : Json :=
  .object [("lines", p.linesJson), ("values", p.valuesJson)]

end DataPoint

end EngineLink.Telemetry
