import EngineLink.Text.Blank
import EngineLink.Text.Digits

/-!
# Spans of time

A span is whole seconds and the nanoseconds beyond them. A user writes one as a number with the
suffix `ms` or `s` or none; a log shows one in its largest fitting unit.
-/

namespace EngineLink

/-- A span of time; the nanoseconds are below a second. -/
structure Duration where
  seconds : Nat
  nanos : Nat
  deriving DecidableEq

/-- Why a text is no span of time. -/
inductive DurationError
  | empty
  /-- The text, without white space around it, is not of the expected form. -/
  | invalid (text : String)
  | zero
  deriving DecidableEq

/-- The sentence for a text that is no span of time. -/
def DurationError.message : DurationError → String
  | empty => "duration must not be empty"
  | invalid text => "invalid duration value: " ++ text
  | zero => "duration must be greater than zero"

namespace Duration

/-- A span of whole milliseconds. -/
def ofMillis (n : Nat) : Duration :=
  ⟨n / 1000, n % 1000 * 1000000⟩

/-- A span of whole seconds. -/
def ofSeconds (n : Nat) : Duration :=
  ⟨n, 0⟩

/-- The text in front of an ending that it has. -/
def before? (ending text : List Char) : Option (List Char) :=
  if ending.isSuffixOf text then some (text.take (text.length - ending.length)) else none

/-- The unit of a written span: its digits and the span of so many units. -/
def unit (text : List Char) : List Char × (Nat → Duration) :=
  match before? ['m', 's'] text with
  | some number => (number, ofMillis)
  | none =>
    match before? ['s'] text with
    | some number => (number, ofSeconds)
    | none => (text, ofSeconds)

/-- Reads a span of time. -/
def parse (text : String) : Except DurationError Duration :=
  let trimmed := Text.trimChars text.toList
  if trimmed = [] then .error .empty
  else
    let parts := unit trimmed
    match Text.readNat? Text.maxWord parts.1 with
    | none => .error (.invalid (String.ofList trimmed))
    | some 0 => .error .zero
    | some n => .ok (parts.2 n)

/-- A number and so many parts of a power of ten of it, without final zeros. -/
def decimalText (whole part places : Nat) : List Char :=
  let padded := List.replicate (places - (Text.digits part).length) '0' ++ Text.digits part
  let significant := (padded.reverse.dropWhile (· = '0')).reverse
  if part = 0 then Text.digits whole else Text.digits whole ++ '.' :: significant

/-- A span as shown to a developer, in the largest unit of which it has one. -/
def display (d : Duration) : String :=
  let text (whole part places : Nat) (suffix : String) :=
    String.ofList (decimalText whole part places) ++ suffix
  if 0 < d.seconds then text d.seconds d.nanos 9 "s"
  else if 1000000 ≤ d.nanos then text (d.nanos / 1000000) (d.nanos % 1000000) 6 "ms"
  else if 1000 ≤ d.nanos then text (d.nanos / 1000) (d.nanos % 1000) 3 "µs"
  else text d.nanos 0 0 "ns"

end Duration

end EngineLink
