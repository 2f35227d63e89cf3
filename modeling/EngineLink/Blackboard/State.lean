import EngineLink.Json.Basic

/-!
# The state on the blackboard

The state of a spacecraft as its sensors and actuators report it: named fields, each a number or
a short vector of numbers. A state gives every field its values.
-/

namespace EngineLink.Blackboard

/-- The kinds of numbers in a state. -/
inductive Kind
  /-- A floating-point number of 64 bits. -/
  | real
  /-- A signed integer of 32 bits. -/
  | int
  deriving DecidableEq

namespace Kind

/-- The numbers of a kind. -/
abbrev Value : Kind → Type
  | real => Binary64
  | int => Int32

/-- The number of bytes of a number, and the multiple at which it stands. -/
def size : Kind → Nat
  | real => 8
  | int => 4

/-- The number zero. -/
def zero : (k : Kind) → k.Value
  | real => .zero false
  | int => 0

/-- A number as a JSON value. -/
def toJson : (k : Kind) → k.Value → Json
  | real, x => .ofBinary64 x
  | int, n => .ofInt n.toInt

end Kind

/-- The fields of a state, in the order in which they stand in memory. -/
inductive Field
  | qn | wn | svb | bvb | hvb | whlH | gyroRate | magField | cssValid | cssIllum | fssValid
  | fssSunAng | stValid | stQn | gpsValid | gpsRollover | gpsWeek | gpsSec | gpsPosN | gpsVelN
  | gpsPosW | gpsVelW | gpsLng | gpsLat | gpsAlt | accelAcc
  deriving DecidableEq

namespace Field

/-- Every field, in the order in which they stand in memory. -/
def all : List Field :=
  [qn, wn, svb, bvb, hvb, whlH, gyroRate, magField, cssValid, cssIllum, fssValid, fssSunAng,
    stValid, stQn, gpsValid, gpsRollover, gpsWeek, gpsSec, gpsPosN, gpsVelN, gpsPosW, gpsVelW,
    gpsLng, gpsLat, gpsAlt, accelAcc]

/-- The name of a field. -/
def name : Field → String
  | qn => "qn"
  | wn => "wn"
  | svb => "svb"
  | bvb => "bvb"
  | hvb => "hvb"
  | whlH => "whl_h"
  | gyroRate => "gyro_rate"
  | magField => "mag_field"
  | cssValid => "css_valid"
  | cssIllum => "css_illum"
  | fssValid => "fss_valid"
  | fssSunAng => "fss_sun_ang"
  | stValid => "st_valid"
  | stQn => "st_qn"
  | gpsValid => "gps_valid"
  | gpsRollover => "gps_rollover"
  | gpsWeek => "gps_week"
  | gpsSec => "gps_sec"
  | gpsPosN => "gps_pos_n"
  | gpsVelN => "gps_vel_n"
  | gpsPosW => "gps_pos_w"
  | gpsVelW => "gps_vel_w"
  | gpsLng => "gps_lng"
  | gpsLat => "gps_lat"
  | gpsAlt => "gps_alt"
  | accelAcc => "accel_acc"

/-- The kind of the numbers of a field. -/
def kind : Field → Kind
  | cssValid | fssValid | stValid | gpsValid | gpsRollover | gpsWeek => .int
  | _ => .real

/-- How many numbers a field has. -/
def count : Field → Nat
  | cssValid | cssIllum => 6
  | qn | stQn => 4
  | fssSunAng => 2
  | fssValid | stValid | gpsValid | gpsRollover | gpsWeek | gpsSec | gpsLng | gpsLat | gpsAlt => 1
  | _ => 3

/-- The values of a field. -/
abbrev Values (f : Field) : Type :=
  Vector f.kind.Value f.count

/-- The fields that the models of the hardware read, in the order in which they are shown. -/
def sensors : List Field :=
  [svb, bvb, hvb, gyroRate, cssValid, cssIllum, fssValid, fssSunAng, stValid, stQn, gpsPosN,
    gpsVelN, accelAcc, whlH]

end Field

/-- The values of every field. -/
abbrev State :=
  (f : Field) → f.Values

/-- The state in which every number is zero. -/
def State.zero : State :=
  fun f => Vector.replicate f.count f.kind.zero

/-- The state with other values in one field. -/
def State.set (s : State) (f : Field) (values : f.Values) : State :=
  fun g => if h : f = g then h ▸ values else s g

/-- The values of a field as a JSON value: a number, or an array of several. -/
def State.fieldJson (s : State) (f : Field) : Json :=
  match (s f).toList.map f.kind.toJson with
  | [value] => value
  | values => .array values

/-- The values of the fields that the models of the hardware read. -/
abbrev SensorValues :=
  (f : Field) → f ∈ Field.sensors → f.Values

/-- What the models of the hardware read of a state. -/
def State.sensorValues (s : State) : SensorValues :=
  fun f _ => s f

/-- What is shown of a state: every field, or those that the models of the hardware read. -/
inductive View
  | full
  | sensors
  deriving DecidableEq

/-- The fields of a view, in the order in which they are shown. -/
def View.fields : View → List Field
  | full => Field.all
  | sensors => Field.sensors

/-- The fields of a view with their values. -/
def State.entries (s : State) (v : View) : List (String × Json) :=
  v.fields.map fun f => (f.name, s.fieldJson f)

end EngineLink.Blackboard
